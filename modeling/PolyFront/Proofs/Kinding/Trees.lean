import Mathlib.Data.List.Forall2
import PolyFront.Checking.Kinds
import PolyFront.Proofs.Kinding.Ground

/-!
# Well-kinded trees

When the tree of a written type is well kinded, and what becomes of that when the kinds of its
nodes are substituted or defaulted.  A tree is read through a substitution, since its kinds are
substituted long after they are found.
-/

namespace PolyFront

/-- The kinds that names are bound to. -/
abbrev KindContext := String → Option Kind

namespace KindContext

/-- Bind names to the kinds that their binders carry, a later binder over an earlier one. -/
def bind (known : KindContext) (binders : List (TypeVarNode Attributes)) : KindContext :=
  binders.foldl
    (fun known var key =>
      if key = var.name then var.here.info.classifier.kind? else known key)
    known

/-- A name is bound by the last binder of that name, or as it was. -/
theorem bind_cases (binders : List (TypeVarNode Attributes)) (key : String) :
    (∃ var ∈ binders, var.name = key ∧
        ∀ known : KindContext, known.bind binders key = var.here.info.classifier.kind?) ∨
      (∀ var ∈ binders, var.name ≠ key) ∧
        ∀ known : KindContext, known.bind binders key = known key := by
  induction binders with
  | nil => exact .inr ⟨fun _ hvar => (List.not_mem_nil hvar).elim, fun _ => rfl⟩
  | cons var rest ih =>
    rcases ih with ⟨found, hmem, hname, hbind⟩ | ⟨hnone, hbind⟩
    · exact .inl ⟨found, List.mem_cons_of_mem _ hmem, hname, fun known => hbind _⟩
    · by_cases hkey : key = var.name
      · refine .inl ⟨var, List.mem_cons_self, hkey.symm, fun known => ?_⟩
        exact (hbind _).trans (if_pos hkey)
      · refine .inr ⟨?_, fun known => (hbind _).trans (if_neg hkey)⟩
        intro other hother
        rcases List.mem_cons.1 hother with rfl | hother
        · exact fun heq => hkey heq.symm
        · exact hnone other hother

end KindContext

/-- The kind that a node carries, as a substitution shows it. -/
def Located.kindBy (view : Kind → Kind) (here : Located Attributes) : Option Kind :=
  here.info.classifier.kind?.map view

theorem Located.kindBy_id (here : Located Attributes) :
    here.kindBy id = here.info.classifier.kind? := by
  rw [kindBy, Option.map_id]
  rfl

mutual
/-- Functions take and give proper types, an application has the kinds that its head asks for, a
quantifier stands around a proper type or makes a type of a higher kind, and a name has the kind
that it is bound to. -/
def TypeNode.WellKindedBy (view : Kind → Kind) (known : KindContext) : TypeNode Attributes → Prop
  | .quantified here binders body =>
    body.WellKindedBy view (known.bind binders) ∧
      (here.kindBy view = some .type ∧ body.here.kindBy view = some .type ∨
        ∃ kinds result, binders.map (fun var => var.here.kindBy view) = kinds.map some ∧
          body.here.kindBy view = some result ∧ here.kindBy view = some (.higher kinds result))
  | .function here args result =>
    here.kindBy view = some .type ∧ (∀ arg ∈ args, arg.here.kindBy view = some .type) ∧
      result.here.kindBy view = some .type ∧ TypeNode.WellKindedListBy view known args ∧
      result.WellKindedBy view known
  | .apply here head args =>
    (∃ kinds result, args.map (fun arg => arg.here.kindBy view) = kinds.map some ∧
        here.kindBy view = some result ∧ head.here.kindBy view = some (.higher kinds result)) ∧
      head.WellKindedBy view known ∧ TypeNode.WellKindedListBy view known args
  | .reference here _ =>
    ∃ kind, known here.info.name.canonical = some kind ∧ here.kindBy view = some (view kind)
  | .var node =>
    ∃ kind, known node.here.info.name.canonical = some kind ∧
      node.here.kindBy view = some (view kind)
def TypeNode.WellKindedListBy (view : Kind → Kind) (known : KindContext) :
    List (TypeNode Attributes) → Prop
  | [] => True
  | node :: rest => node.WellKindedBy view known ∧ TypeNode.WellKindedListBy view known rest
end

/-- The kinds of all nodes fit together. -/
def TypeNode.WellKinded (known : KindContext) (node : TypeNode Attributes) : Prop :=
  node.WellKindedBy id known

/-- The node is a use of one of the names. -/
def TypeNode.isUseOf (names : List String) : TypeNode Attributes → Bool
  | .reference here _ => names.contains here.info.name.canonical
  | .var node => names.contains node.here.info.name.canonical
  | _ => false

mutual
/-- A variable is applied that is loose: its quantifier stands around a proper type, so that only
its uses tell its kind. -/
def TypeNode.appliesLoose (loose : List String) : TypeNode Attributes → Bool
  | .quantified here binders body =>
    let names := binders.map TypeVarNode.name
    if here.kindBy id = some .type then body.appliesLoose (names ++ loose)
    else body.appliesLoose (loose.filter fun name => !names.contains name)
  | .function _ args result => TypeNode.anyAppliesLoose loose args || result.appliesLoose loose
  | .apply _ head args =>
    head.isUseOf loose || head.appliesLoose loose || TypeNode.anyAppliesLoose loose args
  | .reference _ _ => false
  | .var _ => false
def TypeNode.anyAppliesLoose (loose : List String) : List (TypeNode Attributes) → Bool
  | [] => false
  | node :: rest => node.appliesLoose loose || TypeNode.anyAppliesLoose loose rest
end

/-- The node carries a kind of the given sort. -/
def Located.HasKind (sort : Kind → Prop) (here : Located Attributes) : Prop :=
  ∃ kind, here.kindBy id = some kind ∧ sort kind

mutual
/-- Every node satisfies the one condition, and every binder the other. -/
def TypeNode.Carries (sure binder : Located Attributes → Prop) : TypeNode Attributes → Prop
  | .quantified here binders body =>
    sure here ∧ (∀ var ∈ binders, binder var.here) ∧ body.Carries sure binder
  | .function here args result =>
    sure here ∧ TypeNode.CarriesAll sure binder args ∧ result.Carries sure binder
  | .apply here head args =>
    sure here ∧ head.Carries sure binder ∧ TypeNode.CarriesAll sure binder args
  | .reference here _ => sure here
  | .var node => sure node.here
def TypeNode.CarriesAll (sure binder : Located Attributes → Prop) :
    List (TypeNode Attributes) → Prop
  | [] => True
  | node :: rest => node.Carries sure binder ∧ TypeNode.CarriesAll sure binder rest
end

mutual
theorem TypeNode.carries_of_forall {sure binder : Located Attributes → Prop}
    (hsure : ∀ here, sure here) (hbinder : ∀ here, binder here) :
    ∀ node : TypeNode Attributes, node.Carries sure binder
  | .quantified here _ body =>
    ⟨hsure here, fun var _ => hbinder var.here, body.carries_of_forall hsure hbinder⟩
  | .function here args result =>
    ⟨hsure here, carriesAll_of_forall hsure hbinder args, result.carries_of_forall hsure hbinder⟩
  | .apply here head args =>
    ⟨hsure here, head.carries_of_forall hsure hbinder, carriesAll_of_forall hsure hbinder args⟩
  | .reference here _ => hsure here
  | .var node => hsure node.here
theorem TypeNode.carriesAll_of_forall {sure binder : Located Attributes → Prop}
    (hsure : ∀ here, sure here) (hbinder : ∀ here, binder here) :
    ∀ nodes : List (TypeNode Attributes), TypeNode.CarriesAll sure binder nodes
  | [] => True.intro
  | node :: rest =>
    ⟨node.carries_of_forall hsure hbinder, carriesAll_of_forall hsure hbinder rest⟩
end

theorem TypeNode.Carries.here {sure binder : Located Attributes → Prop}
    {node : TypeNode Attributes} (h : node.Carries sure binder) : sure node.here := by
  cases node with
  | quantified here binders body => exact h.1
  | function here args result => exact h.1
  | apply here head args => exact h.1
  | reference here id => exact h
  | var node => exact h

/-- The same name, and kinds that are related. -/
structure Located.Turned (rel : Kind → Kind → Prop) (here here' : Located Attributes) : Prop where
  name : here'.info.name = here.info.name
  kind : ∀ kind, here.kindBy id = some kind → ∃ kind', here'.kindBy id = some kind' ∧ rel kind kind'

/-- Binders of the same names, with kinds that are related. -/
def TypeVarNode.Turned (rel : Kind → Kind → Prop) (var var' : TypeVarNode Attributes) : Prop :=
  var'.name = var.name ∧ var.here.Turned rel var'.here

mutual
/-- The same tree up to its kinds, which are related. -/
def TypeNode.Turned (rel : Kind → Kind → Prop) : TypeNode Attributes → TypeNode Attributes → Prop
  | .quantified here binders body, node' => ∃ here' binders' body',
    node' = .quantified here' binders' body' ∧ here.Turned rel here' ∧
      List.Forall₂ (TypeVarNode.Turned rel) binders binders' ∧ body.Turned rel body'
  | .function here args result, node' => ∃ here' args' result',
    node' = .function here' args' result' ∧ here.Turned rel here' ∧
      TypeNode.TurnedAll rel args args' ∧ result.Turned rel result'
  | .apply here head args, node' => ∃ here' head' args',
    node' = .apply here' head' args' ∧ here.Turned rel here' ∧ head.Turned rel head' ∧
      TypeNode.TurnedAll rel args args'
  | .reference here _, node' => ∃ here' id', node' = .reference here' id' ∧ here.Turned rel here'
  | .var node, node' => ∃ var', node' = .var var' ∧ node.here.Turned rel var'.here
def TypeNode.TurnedAll (rel : Kind → Kind → Prop) :
    List (TypeNode Attributes) → List (TypeNode Attributes) → Prop
  | [], nodes' => nodes' = []
  | node :: rest, nodes' => ∃ node' rest',
    nodes' = node' :: rest' ∧ node.Turned rel node' ∧ TypeNode.TurnedAll rel rest rest'
end

theorem TypeNode.Turned.here {rel : Kind → Kind → Prop} {node node' : TypeNode Attributes}
    (h : node.Turned rel node') : node.here.Turned rel node'.here := by
  cases node with
  | quantified here binders body =>
    obtain ⟨here', binders', body', rfl, hhere, -⟩ := h
    exact hhere
  | function here args result =>
    obtain ⟨here', args', result', rfl, hhere, -⟩ := h
    exact hhere
  | apply here head args =>
    obtain ⟨here', head', args', rfl, hhere, -⟩ := h
    exact hhere
  | reference here id =>
    obtain ⟨here', id', rfl, hhere⟩ := h
    exact hhere
  | var node =>
    obtain ⟨var', rfl, hhere⟩ := h
    exact hhere

/-- What stands on the right of related lists has a partner on the left. -/
theorem exists_related_left {α β : Type} {r : α → β → Prop} {left : List α} {right : List β}
    (h : List.Forall₂ r left right) {b : β} (hb : b ∈ right) : ∃ a ∈ left, r a b := by
  induction h with
  | nil => cases hb
  | cons hhead _ ih =>
    rcases List.mem_cons.1 hb with rfl | hb
    · exact ⟨_, List.mem_cons_self, hhead⟩
    · obtain ⟨a, ha, hr⟩ := ih hb
      exact ⟨a, List.mem_cons_of_mem _ ha, hr⟩

/-! ## Related trees -/

section Related

variable {rel : Kind → Kind → Prop} {view view' : Kind → Kind}

/-- The kinds of related nodes look the same where they are ground. -/
theorem Located.Turned.kindBy (hrel : ∀ kind kind', rel kind kind' → (view kind).Ground →
    view' kind' = view kind) {here here' : Located Attributes}
        (h : here.Turned rel here') {kind : Kind}
    (hkind : here.kindBy view = some kind) (hground : kind.Ground) :
    here'.kindBy view' = some kind := by
  obtain ⟨own, hown, rfl⟩ := Option.map_eq_some_iff.1 hkind
  obtain ⟨own', hown', hturned⟩ := h.kind own (by rw [Located.kindBy, hown]; rfl)
  obtain ⟨shown, hshown, rfl⟩ := Option.map_eq_some_iff.1 hown'
  rw [Located.kindBy, hshown, ← hrel own _ hturned hground]
  rfl

theorem Located.kindBy_eq {here : Located Attributes} {kind : Kind}
    (h : here.kindBy id = some kind) (view : Kind → Kind) : here.kindBy view =
        some (view kind) := by
  obtain ⟨own, hown, rfl⟩ := Option.map_eq_some_iff.1 h
  rw [Located.kindBy, hown]
  rfl

/-- Related binders bind a name to kinds that look the same where they are ground. -/
theorem KindContext.bind_turned (hrel : ∀ kind kind', rel kind kind' → (view kind).Ground →
    view' kind' = view kind) {binders binders' : List (TypeVarNode Attributes)}
    (hbinders : List.Forall₂ (TypeVarNode.Turned rel) binders binders') :
    ∀ {known known' : KindContext}, (∀ key kind, known key = some kind → (view kind).Ground →
      ∃ kind', known' key = some kind' ∧ view' kind' = view kind) →
    ∀ key kind, known.bind binders key = some kind → (view kind).Ground →
      ∃ kind', known'.bind binders' key = some kind' ∧ view' kind' = view kind := by
  induction hbinders with
  | nil => exact fun hknown => hknown
  | @cons var var' rest rest' hhead _ ih =>
    intro known known' hknown
    refine ih fun key kind hkey hground => ?_
    dsimp only at hkey ⊢
    rw [hhead.1]
    by_cases hname : key = var.name
    · rw [if_pos hname] at hkey ⊢
      have hshown : var.here.kindBy view = some (view kind) := by rw [Located.kindBy, hkey]; rfl
      have hturned := hhead.2.kindBy hrel hshown hground
      obtain ⟨kind', hkind', heq⟩ := Option.map_eq_some_iff.1 hturned
      exact ⟨kind', hkind', heq⟩
    · rw [if_neg hname] at hkey ⊢
      exact hknown key kind hkey hground

theorem TypeNode.turnedAll_iff {nodes nodes' : List (TypeNode Attributes)} :
    TypeNode.TurnedAll rel nodes nodes' ↔ List.Forall₂ (TypeNode.Turned rel) nodes nodes' := by
  induction nodes generalizing nodes' with
  | nil => cases nodes' <;> simp [TypeNode.TurnedAll]
  | cons node rest ih =>
    cases nodes' with
    | nil => simp [TypeNode.TurnedAll]
    | cons node' rest' =>
      simp only [TypeNode.TurnedAll, List.cons.injEq, List.forall₂_cons]
      constructor
      · rintro ⟨_, _, ⟨rfl, rfl⟩, hnode, hrest⟩
        exact ⟨hnode, ih.1 hrest⟩
      · rintro ⟨hnode, hrest⟩
        exact ⟨node', rest', ⟨rfl, rfl⟩, hnode, ih.2 hrest⟩

/-- Several nodes at once. -/
theorem Located.Turned.map_kindBy (hrel : ∀ kind kind', rel kind kind' → (view kind).Ground →
    view' kind' = view kind) {α : Type} {here : α → Located Attributes} {items items' : List α}
    (h : List.Forall₂ (fun item item' => (here item).Turned rel (here item')) items items') :
    ∀ {kinds : List Kind}, (∀ kind ∈ kinds, kind.Ground) →
      items.map (fun item => (here item).kindBy view) = kinds.map some →
      items'.map (fun item => (here item).kindBy view') = kinds.map some := by
  induction h with
  | nil =>
    intro kinds _ hkinds
    exact hkinds
  | cons hhead _ ih =>
    intro kinds hground hkinds
    cases kinds with
    | nil => cases hkinds
    | cons kind kinds =>
      rw [List.map_cons, List.map_cons] at hkinds ⊢
      obtain ⟨hkind, hrest⟩ := List.cons.inj hkinds
      rw [hhead.kindBy hrel hkind (hground kind List.mem_cons_self),
        ih (fun other hother => hground other (List.mem_cons_of_mem _ hother)) hrest]

/-- A kind that a node of a tree of ground kinds is seen to carry is ground. -/
theorem TypeNode.Carries.ground {binder : Located Attributes → Prop} {node : TypeNode Attributes}
    {kind : Kind} (h : node.Carries (Located.HasKind fun kind => (view kind).Ground) binder)
    (hkind : node.here.kindBy view = some kind) : kind.Ground := by
  obtain ⟨own, hown, hground⟩ := h.here
  rw [Located.kindBy_eq hown, Option.some.injEq] at hkind
  rwa [← hkind]

/-- A name that is bound to the kind it has stays so. -/
theorem Located.Turned.bound (hrel : ∀ kind kind', rel kind kind' → (view kind).Ground →
    view' kind' = view kind) {known known' : KindContext}
    (hknown : ∀ key kind, known key = some kind → (view kind).Ground →
      ∃ kind', known' key = some kind' ∧ view' kind' = view kind)
    {here here' : Located Attributes} (h : here.Turned rel here')
    (hcarries : here.HasKind fun kind => (view kind).Ground)
    (hbound : ∃ kind, known here.info.name.canonical = some kind ∧
      here.kindBy view = some (view kind)) :
    ∃ kind, known' here'.info.name.canonical = some kind ∧
        here'.kindBy view' = some (view' kind) := by
  obtain ⟨kind, hkind, hshown⟩ := hbound
  obtain ⟨own, hown, hground⟩ := hcarries
  have heq : view own = view kind := by
    rw [Located.kindBy_eq hown] at hshown
    exact Option.some.inj hshown
  rw [heq] at hground
  obtain ⟨kind', hkind', hsame⟩ := hknown _ kind hkind hground
  refine ⟨kind', by rw [h.name, hkind'], ?_⟩
  rw [hsame]
  exact h.kindBy hrel hshown hground

mutual
/-- A well-kinded tree of ground kinds stays well kinded where these look the same. -/
theorem TypeNode.WellKindedBy.turned (hrel : ∀ kind kind', rel kind kind' → (view kind).Ground →
    view' kind' = view kind) {binder : Located Attributes → Prop} :
    ∀ {node node' : TypeNode Attributes} {known known' : KindContext}, node.Turned rel node' →
    node.Carries (Located.HasKind fun kind => (view kind).Ground) binder →
    (∀ key kind, known key = some kind → (view kind).Ground →
      ∃ kind', known' key = some kind' ∧ view' kind' = view kind) →
    node.WellKindedBy view known → node'.WellKindedBy view' known'
  | .quantified here binders body, _, known, known', hturned, hcarries, hknown, hwell => by
    obtain ⟨here', binders', body', rfl, hhere, hbinders, hbody⟩ := hturned
    refine ⟨hwell.1.turned hrel hbody hcarries.2.2 (KindContext.bind_turned hrel hbinders hknown),
      hwell.2.imp ?_ ?_⟩
    · rintro ⟨hproper, hbodyProper⟩
      exact ⟨hhere.kindBy hrel hproper Kind.ground_type,
        hbody.here.kindBy hrel hbodyProper Kind.ground_type⟩
    · rintro ⟨kinds, result, hkinds, hresult, hhigher⟩
      have hground : (Kind.higher kinds result).Ground := hcarries.ground hhigher
      obtain ⟨hkindsGround, hresultGround⟩ := Kind.ground_higher.1 hground
      refine ⟨kinds, result, ?_, hbody.here.kindBy hrel hresult hresultGround,
        hhere.kindBy hrel hhigher hground⟩
      exact Located.Turned.map_kindBy hrel (hbinders.imp fun _ _ h => h.2) hkindsGround hkinds
  | .function here args result, _, known, known', hturned, hcarries, hknown, hwell => by
    obtain ⟨here', args', result', rfl, hhere, hargs, hresult⟩ := hturned
    obtain ⟨hproper, hargsProper, hresultProper, hargsWell, hresultWell⟩ := hwell
    refine ⟨hhere.kindBy hrel hproper Kind.ground_type, ?_,
      hresult.here.kindBy hrel hresultProper Kind.ground_type,
      hargsWell.turned hrel hargs hcarries.2.1 hknown,
      hresultWell.turned hrel hresult hcarries.2.2 hknown⟩
    intro arg' harg'
    obtain ⟨arg, harg, hturned⟩ := exists_related_left (TypeNode.turnedAll_iff.1 hargs) harg'
    exact hturned.here.kindBy hrel (hargsProper arg harg) Kind.ground_type
  | .apply here head args, _, known, known', hturned, hcarries, hknown, hwell => by
    obtain ⟨here', head', args', rfl, hhere, hhead, hargs⟩ := hturned
    obtain ⟨⟨kinds, result, hkinds, hresult, hhigher⟩, hheadWell, hargsWell⟩ := hwell
    have hground : (Kind.higher kinds result).Ground := hcarries.2.1.ground hhigher
    obtain ⟨hkindsGround, hresultGround⟩ := Kind.ground_higher.1 hground
    refine ⟨⟨kinds, result, ?_, hhere.kindBy hrel hresult hresultGround,
      hhead.here.kindBy hrel hhigher hground⟩, hheadWell.turned hrel hhead hcarries.2.1 hknown,
      hargsWell.turned hrel hargs hcarries.2.2 hknown⟩
    exact Located.Turned.map_kindBy hrel
      ((TypeNode.turnedAll_iff.1 hargs).imp fun _ _ h => h.here) hkindsGround hkinds
  | .reference here _, _, known, known', hturned, hcarries, hknown, hwell => by
    obtain ⟨here', id', rfl, hhere⟩ := hturned
    exact hhere.bound hrel hknown hcarries hwell
  | .var node, _, known, known', hturned, hcarries, hknown, hwell => by
    obtain ⟨var', rfl, hhere⟩ := hturned
    exact hhere.bound hrel hknown hcarries hwell
theorem TypeNode.WellKindedListBy.turned (hrel : ∀ kind kind', rel kind kind' →
    (view kind).Ground → view' kind' = view kind) {binder : Located Attributes → Prop} :
    ∀ {nodes nodes' : List (TypeNode Attributes)} {known known' : KindContext},
    TypeNode.TurnedAll rel nodes nodes' →
    TypeNode.CarriesAll (Located.HasKind fun kind => (view kind).Ground) binder nodes →
    (∀ key kind, known key = some kind → (view kind).Ground →
      ∃ kind', known' key = some kind' ∧ view' kind' = view kind) →
    TypeNode.WellKindedListBy view known nodes → TypeNode.WellKindedListBy view' known' nodes'
  | [], _, _, _, hturned, _, _, _ => by
    obtain rfl := hturned
    exact True.intro
  | _ :: _, _, _, _, hturned, hcarries, hknown, hwell => by
    obtain ⟨node', rest', rfl, hnode, hrest⟩ := hturned
    exact ⟨hwell.1.turned hrel hnode hcarries.1 hknown,
      TypeNode.WellKindedListBy.turned hrel hrest hcarries.2 hknown hwell.2⟩
end

theorem Located.Turned.hasKind {sort sort' : Kind → Prop}
    (hsort : ∀ kind kind', rel kind kind' → sort kind → sort' kind')
    {here here' : Located Attributes} (h : here.Turned rel here') (hkind : here.HasKind sort) :
    here'.HasKind sort' := by
  obtain ⟨kind, hkind, hkindSort⟩ := hkind
  obtain ⟨kind', hkind', hturned⟩ := h.kind kind hkind
  exact ⟨kind', hkind', hsort kind kind' hturned hkindSort⟩

theorem Located.HasKind.turned_self {sort : Kind → Prop} (hsort : ∀ kind, sort kind → rel kind kind)
    {here : Located Attributes} (h : here.HasKind sort) : here.Turned rel here := by
  obtain ⟨kind, hkind, hkindSort⟩ := h
  refine ⟨rfl, fun other hother => ⟨other, hother, ?_⟩⟩
  rw [hkind, Option.some.injEq] at hother
  exact hother ▸ hsort kind hkindSort

section Carries

variable {sure sure' binder binder' : Located Attributes → Prop}

mutual
theorem TypeNode.Carries.turned
    (hsure : ∀ {here here'}, Located.Turned rel here here' → sure here → sure' here')
    (hbinder : ∀ {here here'}, Located.Turned rel here here' → binder here → binder' here') :
    ∀ {node node' : TypeNode Attributes}, node.Turned rel node' → node.Carries sure binder →
      node'.Carries sure' binder'
  | .quantified _ _ _, _, hturned, h => by
    obtain ⟨here', binders', body', rfl, hhere, hbinders, hbody⟩ := hturned
    refine ⟨hsure hhere h.1, fun var' hvar' => ?_, h.2.2.turned hsure hbinder hbody⟩
    obtain ⟨var, hvar, hname⟩ := exists_related_left hbinders hvar'
    exact hbinder hname.2 (h.2.1 var hvar)
  | .function _ _ _, _, hturned, h => by
    obtain ⟨here', args', result', rfl, hhere, hargs, hresult⟩ := hturned
    exact ⟨hsure hhere h.1, h.2.1.turned hsure hbinder hargs, h.2.2.turned hsure hbinder hresult⟩
  | .apply _ _ _, _, hturned, h => by
    obtain ⟨here', head', args', rfl, hhere, hhead, hargs⟩ := hturned
    exact ⟨hsure hhere h.1, h.2.1.turned hsure hbinder hhead, h.2.2.turned hsure hbinder hargs⟩
  | .reference _ _, _, hturned, h => by
    obtain ⟨here', id', rfl, hhere⟩ := hturned
    exact hsure hhere h
  | .var _, _, hturned, h => by
    obtain ⟨var', rfl, hhere⟩ := hturned
    exact hsure hhere h
theorem TypeNode.CarriesAll.turned
    (hsure : ∀ {here here'}, Located.Turned rel here here' → sure here → sure' here')
    (hbinder : ∀ {here here'}, Located.Turned rel here here' → binder here → binder' here') :
    ∀ {nodes nodes' : List (TypeNode Attributes)}, TypeNode.TurnedAll rel nodes nodes' →
      TypeNode.CarriesAll sure binder nodes → TypeNode.CarriesAll sure' binder' nodes'
  | [], _, hturned, _ => by
    obtain rfl := hturned
    exact True.intro
  | _ :: _, _, hturned, h => by
    obtain ⟨node', rest', rfl, hnode, hrest⟩ := hturned
    exact ⟨h.1.turned hsure hbinder hnode, h.2.turned hsure hbinder hrest⟩
end

mutual
/-- A tree is related to itself when its nodes are. -/
theorem TypeNode.Carries.turned_self (hsure : ∀ {here}, sure here → here.Turned rel here)
    (hbinder : ∀ {here}, binder here → here.Turned rel here) :
    ∀ {node : TypeNode Attributes}, node.Carries sure binder → node.Turned rel node
  | .quantified here binders body, h =>
    ⟨here, binders, body, rfl, hsure h.1,
      List.forall₂_same.2 fun var hvar => ⟨rfl, hbinder (h.2.1 var hvar)⟩,
      h.2.2.turned_self hsure hbinder⟩
  | .function here args result, h =>
    ⟨here, args, result, rfl, hsure h.1, h.2.1.turned_self hsure hbinder,
      h.2.2.turned_self hsure hbinder⟩
  | .apply here head args, h =>
    ⟨here, head, args, rfl, hsure h.1, h.2.1.turned_self hsure hbinder,
      h.2.2.turned_self hsure hbinder⟩
  | .reference here id, h => ⟨here, id, rfl, hsure h⟩
  | .var node, h => ⟨node, rfl, hsure h⟩
theorem TypeNode.CarriesAll.turned_self (hsure : ∀ {here}, sure here → here.Turned rel here)
    (hbinder : ∀ {here}, binder here → here.Turned rel here) :
    ∀ {nodes : List (TypeNode Attributes)}, TypeNode.CarriesAll sure binder nodes →
      TypeNode.TurnedAll rel nodes nodes
  | [], _ => rfl
  | node :: rest, h => ⟨node, rest, rfl, h.1.turned_self hsure hbinder,
      h.2.turned_self hsure hbinder⟩
end

theorem TypeNode.Carries.mono {sort sort' : Kind → Prop} (h : ∀ kind, sort kind → sort' kind)
    {node : TypeNode Attributes}
    (hnode : node.Carries (Located.HasKind sort) (Located.HasKind sort)) :
    node.Carries (Located.HasKind sort') (Located.HasKind sort') := by
  have hself : node.Turned Eq node :=
    hnode.turned_self (fun hkind => hkind.turned_self fun _ _ => rfl) fun hkind =>
      hkind.turned_self fun _ _ => rfl
  have hsort : ∀ kind kind' : Kind, kind = kind' → sort kind → sort' kind' := by
    rintro kind _ rfl
    exact h kind
  exact hnode.turned (fun hturned => hturned.hasKind hsort) (fun hturned => hturned.hasKind hsort)
    hself

end Carries

theorem TypeNode.isUseOf_turned {node node' : TypeNode Attributes} (h : node.Turned rel node')
    {loose loose' : List String} (hloose : loose ⊆ loose') (huse : node.isUseOf loose = true) :
    node'.isUseOf loose' = true := by
  cases node with
  | reference here id =>
    obtain ⟨here', id', rfl, hhere⟩ := h
    rw [isUseOf, List.contains_iff_mem] at huse ⊢
    rw [hhere.name]
    exact hloose huse
  | var node =>
    obtain ⟨var', rfl, hhere⟩ := h
    rw [isUseOf, List.contains_iff_mem] at huse ⊢
    rw [hhere.name]
    exact hloose huse
  | quantified here binders body => cases huse
  | function here args result => cases huse
  | apply here head args => cases huse

theorem TypeVarNode.names_turned {binders binders' : List (TypeVarNode Attributes)}
    (h : List.Forall₂ (TypeVarNode.Turned rel) binders binders') :
    binders'.map TypeVarNode.name = binders.map TypeVarNode.name := by
  induction h with
  | nil => rfl
  | cons hhead _ ih => rw [List.map_cons, List.map_cons, hhead.1, ih]

mutual
/-- A loose variable that is applied is so in a related tree, where more can be loose. -/
theorem TypeNode.appliesLoose_turned (htype : ∀ kind, rel .type kind → kind = .type) :
    ∀ {node node' : TypeNode Attributes} {loose loose' : List String}, node.Turned rel node' →
      loose ⊆ loose' → node.appliesLoose loose = true → node'.appliesLoose loose' = true
  | .quantified here binders body, _, loose, loose', hturned, hloose, h => by
    obtain ⟨here', binders', body', rfl, hhere, hbinders, hbody⟩ := hturned
    simp only [appliesLoose, TypeVarNode.names_turned hbinders] at h ⊢
    split at h
    · rename_i hproper
      obtain ⟨kind, hkind, hrel⟩ := hhere.kind _ hproper
      rw [htype kind hrel] at hkind
      rw [if_pos hkind]
      refine appliesLoose_turned htype hbody ?_ h
      exact List.append_subset.2 ⟨List.subset_append_left _ _,
        fun name hname => List.mem_append_right _ (hloose hname)⟩
    · split
      · refine appliesLoose_turned htype hbody ?_ h
        exact fun name hname => List.mem_append_right _ (hloose (List.mem_of_mem_filter hname))
      · refine appliesLoose_turned htype hbody ?_ h
        intro name hname
        obtain ⟨hmem, hother⟩ := List.mem_filter.1 hname
        exact List.mem_filter.2 ⟨hloose hmem, hother⟩
  | .function _ _ _, _, loose, loose', hturned, hloose, h => by
    obtain ⟨here', args', result', rfl, -, hargs, hresult⟩ := hturned
    rw [appliesLoose, Bool.or_eq_true] at h ⊢
    exact h.imp (anyAppliesLoose_turned htype hargs hloose)
      (appliesLoose_turned htype hresult hloose)
  | .apply _ _ _, _, loose, loose', hturned, hloose, h => by
    obtain ⟨here', head', args', rfl, -, hhead, hargs⟩ := hturned
    rw [appliesLoose, Bool.or_eq_true, Bool.or_eq_true] at h ⊢
    exact h.imp (Or.imp (isUseOf_turned hhead hloose) (appliesLoose_turned htype hhead hloose))
      (anyAppliesLoose_turned htype hargs hloose)
  | .reference _ _, _, _, _, _, _, h => by cases h
  | .var _, _, _, _, _, _, h => by cases h
theorem TypeNode.anyAppliesLoose_turned (htype : ∀ kind, rel .type kind → kind = .type) :
    ∀ {nodes nodes' : List (TypeNode Attributes)} {loose loose' : List String},
      TypeNode.TurnedAll rel nodes nodes' → loose ⊆ loose' →
      TypeNode.anyAppliesLoose loose nodes = true → TypeNode.anyAppliesLoose loose' nodes' = true
  | [], _, _, _, _, _, h => by cases h
  | _ :: _, _, _, _, hturned, hloose, h => by
    obtain ⟨node', rest', rfl, hnode, hrest⟩ := hturned
    rw [anyAppliesLoose, Bool.or_eq_true] at h ⊢
    exact h.imp (appliesLoose_turned htype hnode hloose) (anyAppliesLoose_turned htype hrest hloose)
end

/-! ## Traversals -/

section Traversals

open Run

variable {σ : Type} {inv : σ → Prop} {fit : Located Attributes → Prop} {f : Attributes →
    Run σ Attributes}

/-- An action on annotations that keeps their names and turns their kinds. -/
def Turns (inv : σ → Prop) (fit : Located Attributes → Prop) (rel : Kind → Kind → Prop)
    (f : Attributes → Run σ Attributes) : Prop :=
  ∀ (here : Located Attributes) (s : σ), fit here → inv s →
    Ends (f here.info) s fun attributes s' => inv s' ∧ attributes.name = here.info.name ∧
      ∀ kind, here.info.classifier.kind? = some kind →
        ∃ kind', attributes.classifier.kind? = some kind' ∧ rel kind kind'

theorem Located.traverse_turned (hf : Turns inv fit rel f) {here : Located Attributes} {s : σ}
    (hs : inv s) (h : fit here) :
    Ends (here.traverse f) s fun here' s' => inv s' ∧ here.Turned rel here' := by
  refine Ends.bind ((hf here s h hs).mono fun attributes s' h => ?_)
  obtain ⟨hs', hname, hkinds⟩ := h
  refine Ends.pure ⟨hs', hname, fun kind hkind => ?_⟩
  rw [kindBy_id] at hkind
  obtain ⟨kind', hkind', hrel⟩ := hkinds kind hkind
  exact ⟨kind', by rw [kindBy_id]; exact hkind', hrel⟩

theorem TypeVarNode.traverseAll_turned (hf : Turns inv fit rel f) :
    ∀ {binders : List (TypeVarNode Attributes)} {s : σ}, inv s →
      (∀ var ∈ binders, fit var.here) →
      Ends (binders.mapM (TypeVarNode.traverse f)) s fun binders' s' => inv s' ∧
        List.Forall₂ (TypeVarNode.Turned rel) binders binders'
  | [], _, hs, _ => Ends.pure ⟨hs, .nil⟩
  | var :: rest, s, hs, h => by
    rw [List.mapM_cons]
    refine Ends.bind (Ends.bind
        ((Located.traverse_turned hf hs (h var List.mem_cons_self)).mono ?_))
    rintro here' s₁ ⟨hs₁, hhere⟩
    refine Ends.pure (Ends.bind ((traverseAll_turned hf hs₁ fun other hother =>
      h other (List.mem_cons_of_mem _ hother)).mono ?_))
    rintro rest' s₂ ⟨hs₂, hrest⟩
    exact Ends.pure ⟨hs₂, .cons ⟨rfl, hhere⟩ hrest⟩

mutual
theorem TypeNode.traverse_turned (hf : Turns inv fit rel f) :
    ∀ {node : TypeNode Attributes} {s : σ}, inv s → node.Carries fit fit →
      Ends (node.traverse f) s fun node' s' => inv s' ∧ node.Turned rel node'
  | .quantified here binders body, s, hs, h => by
    rw [traverse]
    refine Ends.bind ((Located.traverse_turned hf hs h.1).mono ?_)
    rintro here' s₁ ⟨hs₁, hhere⟩
    refine Ends.bind ((TypeVarNode.traverseAll_turned hf hs₁ h.2.1).mono ?_)
    rintro binders' s₂ ⟨hs₂, hbinders⟩
    refine Ends.bind ((traverse_turned hf hs₂ h.2.2).mono ?_)
    rintro body' s₃ ⟨hs₃, hbody⟩
    exact Ends.pure ⟨hs₃, here', binders', body', rfl, hhere, hbinders, hbody⟩
  | .function here args result, s, hs, h => by
    rw [traverse]
    refine Ends.bind ((Located.traverse_turned hf hs h.1).mono ?_)
    rintro here' s₁ ⟨hs₁, hhere⟩
    refine Ends.bind ((traverseList_turned hf hs₁ h.2.1).mono ?_)
    rintro args' s₂ ⟨hs₂, hargs⟩
    refine Ends.bind ((traverse_turned hf hs₂ h.2.2).mono ?_)
    rintro result' s₃ ⟨hs₃, hresult⟩
    exact Ends.pure ⟨hs₃, here', args', result', rfl, hhere, hargs, hresult⟩
  | .apply here head args, s, hs, h => by
    rw [traverse]
    refine Ends.bind ((Located.traverse_turned hf hs h.1).mono ?_)
    rintro here' s₁ ⟨hs₁, hhere⟩
    refine Ends.bind ((traverse_turned hf hs₁ h.2.1).mono ?_)
    rintro head' s₂ ⟨hs₂, hhead⟩
    refine Ends.bind ((traverseList_turned hf hs₂ h.2.2).mono ?_)
    rintro args' s₃ ⟨hs₃, hargs⟩
    exact Ends.pure ⟨hs₃, here', head', args', rfl, hhere, hhead, hargs⟩
  | .reference here _, s, hs, h => by
    rw [traverse]
    refine Ends.bind ((Located.traverse_turned hf hs h).mono ?_)
    rintro here' s₁ ⟨hs₁, hhere⟩
    exact Ends.pure ⟨hs₁, here', _, rfl, hhere⟩
  | .var node, s, hs, h => by
    rw [traverse]
    refine Ends.bind (Ends.bind ((Located.traverse_turned hf hs h).mono ?_))
    rintro here' s₁ ⟨hs₁, hhere⟩
    exact Ends.pure (Ends.pure ⟨hs₁, _, rfl, hhere⟩)
theorem TypeNode.traverseList_turned (hf : Turns inv fit rel f) :
    ∀ {nodes : List (TypeNode Attributes)} {s : σ}, inv s → TypeNode.CarriesAll fit fit nodes →
      Ends (TypeNode.traverseList f nodes) s fun nodes' s' => inv s' ∧
        TypeNode.TurnedAll rel nodes nodes'
  | [], s, hs, _ => by
    rw [traverseList]
    exact Ends.pure ⟨hs, rfl⟩
  | node :: rest, s, hs, h => by
    rw [traverseList]
    refine Ends.bind ((traverse_turned hf hs h.1).mono ?_)
    rintro node' s₁ ⟨hs₁, hnode⟩
    refine Ends.bind ((traverseList_turned hf hs₁ h.2).mono ?_)
    rintro rest' s₂ ⟨hs₂, hrest⟩
    exact Ends.pure ⟨hs₂, node', rest', rfl, hnode, hrest⟩
end

end Traversals

end Related

end PolyFront
