import Mathlib.Data.List.Nodup
import PolyFront.Proofs.Annotation.Types
import PolyFront.Proofs.Faultless.Front
import PolyFront.Proofs.Kinding.Placed
import PolyFront.Proofs.Solutions.Defaults

/-!
# Kinds of data declarations

The parameters of a data declaration are bound to variables while its fields are checked.  When
all types in it are plain and no parameter has the name of the declaration, these variables stay
in place, so that what a field says about a parameter holds in every field: all uses of a
parameter end with the kind that the declaration gives it.
-/

namespace PolyFront

open Run Check Store

/-! ## Written types -/

/-- The types that a constructor is written with. -/
def Constructor.types {α : Type} (node : Constructor α) : List (TypeNode α) :=
  node.params.map ConstructorParam.ascription ++ node.result.toList

/-- The types that a data declaration is written with. -/
def Data.types {α : Type} (d : Data α) : List (TypeNode α) :=
  d.constructors.flatMap Constructor.types

def Data.paramNames {α : Type} (d : Data α) : List String := d.typeParams.map TypeVarNode.name

/-- The kind of the declaration is made of those of its parameters, which are known, and every use
of a parameter carries the kind of the parameter. -/
structure Data.Consistent (d : Data Attributes) : Prop where
  kind : ∃ kinds, (∀ kind ∈ kinds, kind.Ground) ∧
    d.typeParams.map (fun param => param.here.kindBy id) = kinds.map some ∧
    d.here.kindBy id = some (dataKind kinds)
  uses : ∀ node ∈ d.types, ∀ param ∈ d.typeParams, ∀ use ∈ node.usesOf param.name,
    use.kindBy id = param.here.kindBy id

namespace Check

/-- The types of a checked constructor. -/
def CheckedConstructor.types (checked : CheckedConstructor) : List (TypeNode Attributes) :=
  checked.fields ++ checked.result.toList

end Check

/-! ## Fields -/

variable {known : KindContext} {vars : List String} {mark : Nat} {s s' : Store} {c : Checker}

theorem Store.Tidy.placed (h : s.Tidy) : s.Placed s.nextKind [] := by
  have hold : ∀ id, s.Registered id → ∀ v ∈ (s.expansion id).unknowns, v < s.nextKind :=
    fun id hid v hv => h.created v (h.closed id hid v hv)
  refine ⟨h, ?_, Nat.le_refl _, fun _ hid => (List.not_mem_nil hid).elim, fun id v hv => ?_,
    fun id => ?_⟩
  · refine List.pairwise_of_forall_mem_list fun inner _ outer houter v hv w _ => .inl ?_
    exact h.created v ⟨outer, houter, hv⟩
  · by_cases hid : s.Registered id
    · exact .inl (hold id hid v (by simp [hv]))
    · rw [h.free id hid, Kind.unsolved.injEq] at hv
      exact .inr (Nat.le_of_eq hv.symm)
  · rw [Flat, Held, Kind.bind_unsolved]
    by_cases hid : s.Registered id
    · exact .inr fun v hv => .inl (hold id hid v hv)
    · exact .inl ⟨id, h.free id hid⟩

/-- A flat kind that is no newer variable stands for one that is older than the mark. -/
theorem Store.Flat.proper {kind : Kind} (h : s.Flat mark [] kind) (holder : s.Older mark kind) :
    (kind.bind s.expansion).Proper mark := by
  rcases h with ⟨v, hv⟩ | hheld
  · rw [hv, Kind.proper_unsolved]
    exact holder v hv
  · intro v hv
    refine (hheld v hv).resolve_right ?_
    rintro ⟨id, hid, -⟩
    cases hid

/-- Every use of a name carries a kind that is older than the mark and stands for the same as the
kind of the name. -/
def TypeNode.Holds (known : KindContext) (mark : Nat) (s : Store) (node : TypeNode Attributes) :
    Prop :=
  ∀ key kind, known key = some kind → ∀ use ∈ node.usesOf key, ∃ own, use.kindBy id = some own ∧
    own.Proper mark ∧ s.Live own ∧ own.bind s.expansion = kind.bind s.expansion

theorem TypeNode.Holds.leads {node : TypeNode Attributes} (h : node.Holds known mark s)
    (hleads : Leads mark [] s s') : node.Holds known mark s' := by
  intro key kind hkey use huse
  obtain ⟨own, hown, hproper, hlive, heq⟩ := h key kind hkey use huse
  refine ⟨own, hown, hproper, hleads.live hlive, ?_⟩
  rw [← hleads.absorbs.bind own, heq, hleads.absorbs.bind]

/-- What older variables stand for is kept when a frame is popped. -/
theorem TypeNode.Holds.popped {node : TypeNode Attributes} {s₁ : Store} {tag : ScopeKind}
    (h : node.Holds known mark s₁) (hleads : Leads mark [] (s.pushed tag) s₁)
    (hmark : mark ≤ s.nextKind) (hlive : ∀ {key kind}, known key = some kind → s.Live kind)
    (hleads' : LeadsCalmly mark [] s s')
    (hkept : ∀ id, s.Registered id → s'.expansion id = s₁.expansion id) :
    node.Holds known mark s' := by
  obtain ⟨ids, hopened, hids⟩ := hleads.inside (Nat.le_refl _) (inside_pushed s tag)
  intro key kind hkey use huse
  obtain ⟨own, hown, hproper, hownLive, heq⟩ := h key kind hkey use huse
  have hregistered : ∀ id ∈ own.unknowns, s.Registered id := by
    intro id hid
    refine (hopened.registered_iff.1 (hownLive id hid)).resolve_left fun hmem => ?_
    exact Nat.not_lt.2 (hids id hmem) (Nat.lt_of_lt_of_le (hproper id hid) hmark)
  have hsame : ∀ {kind : Kind}, s.Live kind → kind.bind s'.expansion = kind.bind s₁.expansion :=
    fun hkind => Kind.bind_congr fun id hid => hkept id (hkind id hid)
  refine ⟨own, hown, hproper, fun id hid => hleads'.registered id (hregistered id hid), ?_⟩
  rw [hsame hregistered, heq, hsame (hlive hkey)]

/-- Steps that keep variables in place and whose results stay good, one after the other. -/
theorem placed_mapM {ι β : Type} {run : ι → Check β} (good : β → Store → Prop)
    (hgood : ∀ {b : β} {s s' : Store}, LeadsCalmly mark [] s s' → good b s → good b s') :
    ∀ items : List ι, (∀ item ∈ items, Appends (run item) ∧
      ∀ c : Checker, known.Places vars [] mark [] c.store → Quietly (run item) c fun b c' =>
        LeadsCalmly mark [] c.store c'.store ∧ good b c'.store) →
    ∀ c : Checker, known.Places vars [] mark [] c.store → Quietly (items.mapM run) c fun bs c' =>
      LeadsCalmly mark [] c.store c'.store ∧ ∀ b ∈ bs, good b c'.store := by
  intro items
  induction items with
  | nil =>
    exact fun _ c hplaces => Quietly.pure ⟨hplaces.placed.leads, fun _ hb =>
        (List.not_mem_nil hb).elim⟩
  | cons item rest ih =>
    intro hrun c hplaces
    have hrest : ∀ other ∈ rest, _ := fun other hother => hrun other (List.mem_cons_of_mem _ hother)
    have haddsRest : Appends (rest.mapM run) := Appends.mapM fun other hother =>
        (hrest other hother).1
    obtain ⟨hadds, hitem⟩ := hrun item List.mem_cons_self
    rw [List.mapM_cons]
    refine Quietly.bind hadds (fun _ => haddsRest.bind fun _ => Appends.pure _) ?_
    refine (hitem c hplaces).mono ?_
    rintro b c₁ ⟨hleads, hb⟩
    refine Quietly.bind haddsRest (fun _ => Appends.pure _) ?_
    refine (ih hrest c₁ (hplaces.leads [] hleads)).mono ?_
    rintro bs c₂ ⟨hleads', hbs⟩
    refine Quietly.pure ⟨hleads.trans hleads', fun other hother => ?_⟩
    rcases List.mem_cons.1 hother with rfl | hother
    · exact hgood hleads' hb
    · exact hbs other hother

theorem Appends.fieldTypeNode (node : TypeNode Name) : Appends (fieldTypeNode node) :=
  (node.judge_adds.check _).bind fun _ => Appends.traverse (fun _ => Appends.lift _) _

/-- A type is written where the context is known: it is plain, and its names are bound. -/
structure TypeNode.Fits (known : KindContext) (vars : List String)
    (node : TypeNode Name) : Prop where
  names : node.NamesWithin fun key => (known key).isSome = true
  plain : node.isPlain vars [] = true

theorem fieldTypeNode_holds {node : TypeNode Name} (hnode : node.Fits known vars) {c : Checker}
    (hplaces : known.Places vars [] mark [] c.store) :
    Quietly (fieldTypeNode node) c fun tree c' =>
      LeadsCalmly mark [] c.store c'.store ∧ tree.Holds known mark c'.store := by
  refine Quietly.bind (node.judge_adds.check _)
    (fun _ => Appends.traverse (fun _ => Appends.lift _) _) ?_
  refine ((node.judge_uncovers hnode.names hnode.plain).checks .type [] c hplaces (live_type _)
    (held_type _ _ _)).mono ?_
  rintro tree c₁ ⟨hleads, hfollows, -⟩
  refine Quietly.of_ends ((substituteNode_ends tree c₁).mono ?_)
  rintro tree' _ ⟨rfl, hturned⟩
  refine ⟨hleads, fun key kind hkey use' huse' => ?_⟩
  obtain ⟨use, huse, hhere⟩ := exists_related_left (hturned.usesOf key) huse'
  obtain ⟨own, hown, heq⟩ := hfollows key kind hkey use huse
  obtain ⟨_, hown', rfl⟩ := hhere.kind own hown
  have hplaces' := hplaces.leads [] hleads
  rw [substituteKind_eq_bind, heq] at hown'
  exact ⟨_, hown', (hplaces'.flat hkey).proper (hplaces'.older hkey (List.not_mem_nil)),
    (hplaces'.live hkey).bind hplaces'.placed.tidy.closed,
    hplaces'.placed.tidy.sound.bind_expansion kind⟩

theorem Appends.traverseOption {α β : Type} {run : α → Check β} (h : ∀ a, Appends (run a))
    (item : Option α) : Appends (traverseOption run item) := by
  cases item with
  | none => exact Appends.pure _
  | some a => exact (h a).bind fun _ => Appends.pure _

theorem Appends.checkConstructor (node : Constructor Name) : Appends (checkConstructor node) := by
  unfold Check.checkConstructor
  split
  · refine Appends.withScope ((Appends.mapM fun _ _ => Appends.fieldTypeNode _).bind fun _ => ?_)
    exact (Appends.traverseOption Appends.fieldTypeNode _).bind fun _ => Appends.pure _
  · exact Appends.throw _

theorem checkConstructor_holds {node : Constructor Name}
    (hnode : ∀ written ∈ node.types, written.Fits known vars) {c : Checker}
    (hplaces : known.Places vars [] mark [] c.store) :
    Quietly (checkConstructor node) c fun checked c' => LeadsCalmly mark [] c.store c'.store ∧
      ∀ tree ∈ checked.types, tree.Holds known mark c'.store := by
  have hparams : ∀ param ∈ node.params, param.ascription.Fits known vars := fun param hparam =>
    hnode _ (List.mem_append_left _ (List.mem_map_of_mem hparam))
  have haddsResult : Appends (traverseOption fieldTypeNode node.result) :=
    Appends.traverseOption Appends.fieldTypeNode _
  unfold checkConstructor
  split
  · rename_i name _
    refine withScope_placed rfl ((Appends.mapM fun _ _ => Appends.fieldTypeNode _).bind fun _ =>
      haddsResult.bind fun _ => Appends.pure _) hplaces.placed ?_
    have hpushed := hplaces.pushed (.constructor name)
    refine Quietly.bind (Appends.mapM fun _ _ => Appends.fieldTypeNode _)
      (fun _ => haddsResult.bind fun _ => Appends.pure _) ?_
    refine (placed_mapM (fun tree s => TypeNode.Holds known mark s tree)
      (fun hleads htree => htree.leads hleads.toLeads) node.params (fun param hparam =>
        ⟨Appends.fieldTypeNode _, fun c hplaces =>
          fieldTypeNode_holds (hparams param hparam) hplaces⟩) _ hpushed).mono ?_
    rintro fields c₁ ⟨hleads, hfields⟩
    have hplaces₁ := hpushed.leads [] hleads
    have hresult : Quietly (traverseOption fieldTypeNode node.result) c₁ fun result c' =>
        LeadsCalmly mark [] c₁.store c'.store ∧
          ∀ tree ∈ result.toList, tree.Holds known mark c'.store := by
      cases hwritten : node.result with
      | none => exact Quietly.pure ⟨hplaces₁.placed.leads, fun _ htree =>
        (List.not_mem_nil htree).elim⟩
      | some written =>
        refine Quietly.bind (Appends.fieldTypeNode _) (fun _ => Appends.pure _) ?_
        refine (fieldTypeNode_holds (hnode written (List.mem_append_right _ (by simp [hwritten])))
          hplaces₁).mono ?_
        rintro tree c₂ ⟨hleads', htree⟩
        refine Quietly.pure ⟨hleads', fun other hother => ?_⟩
        obtain rfl : other = tree := by simpa using hother
        exact htree
    refine Quietly.bind haddsResult (fun _ => Appends.pure _) (hresult.mono ?_)
    rintro result c₂ ⟨hleads', hresult⟩
    have hboth := hleads.trans hleads'
    refine Quietly.pure ⟨hboth.toLeads, fun c₃ hleads₃ hkept => ⟨hleads₃, fun tree htree => ?_⟩⟩
    have hdone : tree.Holds known mark c₂.store := by
      rcases List.mem_append.1 htree with htree | htree
      · exact (hfields tree htree).leads hleads'.toLeads
      · exact hresult tree htree
    exact hdone.popped hboth.toLeads hplaces.placed.marked hplaces.live hleads₃ hkept
  · intro a c' hrun
    cases hrun

/-! ## Defaults -/

namespace Kind

variable {kinds kinds' : Partition Kind}

/-- Variables were solved by `*`: kinds look the same once all variables are read as `*`. -/
structure Defaulted (kinds kinds' : Partition Kind) : Prop where
  acyclic : ∃ created, Acyclic created kinds'
  starred : ∀ kind : Kind, (kind.substitute kinds').starred = (kind.substitute kinds).starred

theorem starred_starring (ids : List Nat) (kind : Kind) :
    (kind.bind (starring ids)).starred = kind.starred := by
  rw [starred, starred, bind_bind]
  refine bind_congr fun id _ => ?_
  rw [starring]
  split
  · rw [bind_type]
  · rw [bind_unsolved]

theorem ground_starred (kind : Kind) : kind.starred.Ground := kind.unknowns_starred

/-- A kind that is defaulted after others were. -/
theorem Defaulted.default (h : Defaulted kinds kinds') (kind : Kind) :
    (kind.default kinds').1 = (kind.substitute kinds).starred ∧
      Defaulted kinds (kind.default kinds').2 := by
  obtain ⟨created, hacyclic⟩ := h.acyclic
  have hfinal : ∀ id ∈ (kind.substitute kinds').unknowns, kinds'.Final (.unsolved id) :=
    fun id hid => final_of_mem_substitute hacyclic.wellFounded hid
  obtain ⟨bound, hbound, hids⟩ := hacyclic.exists_defaultable hfinal
  have hstars := hbound.substitute_defaultVariables hids
  refine ⟨?_, ⟨bound, hbound.defaultVariables hids⟩, fun other => ?_⟩
  · refine (hstars (kind.substitute kinds')).trans ?_
    rw [substitute_substitute hacyclic.wellFounded, ← h.starred]
    exact bind_starring_eq_starred (List.Subset.refl _)
  · exact ((congrArg Kind.starred (hstars other)).trans (starred_starring _ _)).trans
        (h.starred other)

end Kind

/-- Nodes are defaulted after others were. -/
theorem default_turns (kinds : Partition Kind) :
    Turns (fun c : Checker => Kind.Defaulted kinds c.store.kinds) (Located.HasKind fun _ => True)
      (fun kind kind' => kind' = (kind.substitute kinds).starred)
      fun attributes => (Solve.default attributes : Check Attributes) := by
  rintro ⟨range, name, classifier⟩ c ⟨kind, hkind, -⟩ hdefaulted
  rw [Located.kindBy_id] at hkind
  cases classifier with
  | ofType type => cases hkind
  | ofKind own =>
    obtain ⟨hresult, hdefaulted'⟩ := hdefaulted.default own
    have hdefault : Ends (Solve.default ⟨name, .ofKind own⟩) c.store fun attributes s =>
        s = { c.store with kinds := (own.default c.store.kinds).2 } ∧
          attributes = ⟨name, .ofKind (own.default c.store.kinds).1⟩ :=
      Ends.bind (Ends.bind (Ends.get (Ends.bind (Ends.set (Ends.pure (Ends.pure ⟨rfl, rfl⟩))))))
    refine Ends.within (hdefault.mono ?_)
    rintro _ _ ⟨rfl, rfl⟩
    refine ⟨hdefaulted', rfl, fun other hother => ⟨_, rfl, ?_⟩⟩
    obtain rfl : own = other := Option.some.inj hother
    exact hresult

theorem hasKind_of_isKind {here : Located Attributes} (h : here.info.IsKind) :
    here.HasKind fun _ => True := by
  obtain ⟨kind, hkind⟩ := Option.isSome_iff_exists.1 h
  exact ⟨kind, by rw [Located.kindBy_id, hkind], True.intro⟩

mutual
theorem TypeNode.Kinded.carries : ∀ {node : TypeNode Attributes}, node.Kinded →
    node.Carries (Located.HasKind fun _ => True) (Located.HasKind fun _ => True)
  | .quantified _ _ _, h =>
    ⟨hasKind_of_isKind h.1, fun var hvar => hasKind_of_isKind (h.2.1 var hvar).1, h.2.2.carries⟩
  | .function _ _ _, h => ⟨hasKind_of_isKind h.1, TypeNode.KindedList.carries h.2.1, h.2.2.carries⟩
  | .apply _ _ _, h => ⟨hasKind_of_isKind h.1, h.2.1.carries, TypeNode.KindedList.carries h.2.2⟩
  | .reference _ _, h => hasKind_of_isKind h.1
  | .var _, h => hasKind_of_isKind h.1
theorem TypeNode.KindedList.carries : ∀ {nodes : List (TypeNode Attributes)},
    TypeNode.KindedList nodes → TypeNode.CarriesAll (Located.HasKind fun _ => True)
      (Located.HasKind fun _ => True) nodes
  | [], _ => True.intro
  | _ :: _, h => ⟨h.1.carries, TypeNode.KindedList.carries h.2⟩
end

/-! ## Declarations -/

/-- The kinds that binders carry. -/
theorem kindOf_mapM_ends (vars : List (TypeVarNode Attributes)) (c : Checker) :
    Ends (vars.mapM fun var => kindOf var.here) c fun kinds c' => c' = c ∧
      vars.map (fun var => var.here.kindBy id) = kinds.map some := by
  induction vars with
  | nil => exact Ends.pure ⟨rfl, rfl⟩
  | cons var rest ih =>
    rw [List.mapM_cons]
    have hfirst : Ends (kindOf var.here) c fun kind c' => c' = c ∧
        var.here.kindBy id = some kind := by
      unfold Check.kindOf
      split
      · rename_i kind hkind
        refine Ends.pure ⟨rfl, ?_⟩
        rw [Located.kindBy_id, hkind]
        rfl
      · intro a c' hrun
        cases hrun
    refine Ends.bind (hfirst.mono ?_)
    rintro kind c₁ ⟨rfl, hkind⟩
    refine Ends.bind (ih.mono ?_)
    rintro kinds c₂ ⟨rfl, hkinds⟩
    exact Ends.pure ⟨rfl, by rw [List.map_cons, List.map_cons, hkind, hkinds]⟩

theorem dataKind_bind (f : Nat → Kind) (kinds : List Kind) :
    (dataKind kinds).bind f = dataKind (kinds.map (Kind.bind f)) := by
  cases kinds with
  | nil => exact Kind.bind_type f
  | cons kind rest =>
    rw [dataKind, dataKind, if_neg (List.cons_ne_nil _ _), List.map_cons,
      if_neg (List.cons_ne_nil _ _), Kind.bind_higher, Kind.bind_type, List.map_cons]

theorem dataKind_rigid (kinds : List Kind) : (dataKind kinds).Rigid := by
  rw [dataKind]
  split
  · exact .inl Kind.ground_type
  · exact .inr ⟨kinds, rfl⟩

theorem live_dataKind {kinds : List Kind} (h : ∀ kind ∈ kinds, s.Live kind) :
    s.Live (dataKind kinds) := by
  rw [dataKind]
  split
  · exact live_type s
  · exact live_higher.2 ⟨h, live_type s⟩

/-- A data type is bound under two names. -/
theorem bindData_placed (text : String) (name : QualifiedName) (here : Located Attributes)
    {c : Checker} (hplaced : c.store.Placed mark []) :
    Ends (bindData text name here) c fun _ c' => Leads mark [] c.store c'.store ∧
      c'.store.nextKind = c.store.nextKind ∧ ∀ key, c'.store.kindBound key =
        if key = text ∨ key = name.canonical then here.info.classifier.kind?
        else c.store.kindBound key := by
  refine Ends.bind (Ends.within ((Solve.putType_placed hplaced text here).mono ?_))
  rintro _ s₁ ⟨hleads, hnext, hbound⟩
  refine Ends.within ((Solve.putType_placed hleads.placed name.canonical here).mono ?_)
  rintro _ s₂ ⟨hleads', hnext', hbound'⟩
  refine ⟨hleads.trans hleads', hnext'.trans hnext, fun key => ?_⟩
  rw [show s₂.kindBound key = _ from hbound' key, hbound key]
  by_cases htext : key = text <;> by_cases hcanonical : key = name.canonical <;>
    simp [htext, hcanonical]

/-- What the fields of a declaration can refer to: its parameters, the declaration itself, and
names that are bound to ground kinds. -/
def Data.Refers (d : Data Name) (name : QualifiedName) (s : Store) (key : String) : Prop :=
  key ∈ d.paramNames ∨ key = d.name ∨ key = name.canonical ∨
    ∃ kind, s.kindBound key = some kind ∧ kind.Ground

/-- The declaration is one whose kind can be inferred in the store: it refers to what is bound, its
parameters have names of their own, and its types are plain. -/
structure Data.Plain (d : Data Name) (name : QualifiedName) (s : Store) : Prop where
  names : ∀ node ∈ d.types, node.NamesWithin (d.Refers name s)
  distinct : d.paramNames.Nodup
  apart : ∀ param ∈ d.paramNames, param ≠ d.name ∧ param ≠ name.canonical
  plain : ∀ node ∈ d.types, node.isPlain d.paramNames [] = true

/-- The context in which the fields of a declaration are checked. -/
theorem Data.Plain.places {d : Data Name} {name : QualifiedName} {s₁ s₂ : Store}
    (h : d.Plain name s) {params : List (TypeVarNode Attributes)} {kinds : List Kind}
    (hleads : Leads s.nextKind [] (s.pushed (.data name)) s₁)
    (hnames : params.map TypeVarNode.name = d.paramNames)
    (hkinds : params.map (fun param => param.here.kindBy id) = kinds.map some)
    (hlive : ∀ kind ∈ kinds, s₁.Live kind)
    (hbound : ∀ key, s₁.kindBound key =
      KindContext.bind (s.pushed (.data name)).kindBound params key)
    (hleads' : Leads s₁.nextKind [] s₁ s₂) (hnext : s₂.nextKind = s₁.nextKind)
    (hbound' : ∀ key, s₂.kindBound key = if key = d.name ∨ key = name.canonical then
      some (dataKind kinds) else s₁.kindBound key) :
    ∃ known : KindContext, known.Places d.paramNames [] s₁.nextKind [] s₂ ∧
      (∀ node ∈ d.types, node.Fits known d.paramNames) ∧
      ∀ param ∈ params, known param.name = param.here.kindBy id := by
  classical
  let known : KindContext := fun key => (s₂.kindBound key).filter fun kind =>
    decide (s₂.Live kind ∧ (key ∈ d.paramNames ∨ kind.Rigid))
  have hknown : ∀ {key kind}, known key = some kind ↔ s₂.kindBound key = some kind ∧
      s₂.Live kind ∧ (key ∈ d.paramNames ∨ kind.Rigid) := fun {key kind} => by
    simp only [known, Option.filter_eq_some_iff, decide_eq_true_eq]
  have hcarries : ∀ param ∈ params, ∃ kind ∈ kinds, param.here.kindBy id = some kind := by
    intro param hmem
    have hmap : param.here.kindBy id ∈ kinds.map some := hkinds ▸ List.mem_map_of_mem hmem
    obtain ⟨kind, hkind, heq⟩ := List.mem_map.1 hmap
    exact ⟨kind, hkind, heq.symm⟩
  have hparam : ∀ param ∈ params, known param.name = param.here.kindBy id := by
    intro param hmem
    have hname : param.name ∈ d.paramNames := hnames ▸ List.mem_map_of_mem hmem
    obtain ⟨hlocal, hcanonical⟩ := h.apart _ hname
    obtain ⟨kind, hkind, hcarried⟩ := hcarries param hmem
    rw [hcarried, hknown]
    refine ⟨?_, hleads'.live (hlive kind hkind), .inl hname⟩
    rw [hbound', if_neg (by simp [hlocal, hcanonical]), hbound]
    rcases KindContext.bind_cases params param.name with ⟨var, hvar, heq, hbind⟩ | ⟨hfree, -⟩
    · obtain rfl : var = param := List.inj_on_of_nodup_map (hnames ▸ h.distinct) hvar hmem heq
      rw [hbind, ← hcarried, Located.kindBy_id]
    · exact (hfree param hmem rfl).elim
  have hrefers : ∀ key, d.Refers name s key → (known key).isSome = true := by
    intro key hkey
    by_cases hdata : key = d.name ∨ key = name.canonical
    · refine Option.isSome_iff_exists.2 ⟨dataKind kinds, hknown.2 ⟨?_, ?_, .inr (dataKind_rigid _)⟩⟩
      · rw [hbound', if_pos hdata]
      · exact hleads'.live (live_dataKind hlive)
    · by_cases hmem : key ∈ d.paramNames
      · rw [← hnames] at hmem
        obtain ⟨param, hin, rfl⟩ := List.mem_map.1 hmem
        obtain ⟨kind, -, hcarried⟩ := hcarries param hin
        rw [hparam param hin, hcarried]
        rfl
      · obtain ⟨kind, hkind, hground⟩ : ∃ kind, s.kindBound key = some kind ∧ kind.Ground := by
          rcases hkey with hkey | hkey | hkey | hkey
          · exact (hmem hkey).elim
          · exact (hdata (.inl hkey)).elim
          · exact (hdata (.inr hkey)).elim
          · exact hkey
        refine Option.isSome_iff_exists.2 ⟨kind, hknown.2 ⟨?_, fun id hid =>
            ?_, .inr (.inl hground)⟩⟩
        · rw [hbound', if_neg hdata, hbound]
          rcases KindContext.bind_cases params key with ⟨var, hvar, heq, -⟩ | ⟨-, hbind⟩
          · exact (hmem (hnames ▸ heq ▸ List.mem_map_of_mem hvar)).elim
          · rw [hbind, kindBound_pushed, hkind]
        · rw [hground] at hid
          cases hid
  have hproper : ∀ {key kind}, known key = some kind → kind.Proper s₁.nextKind := fun hkey =>
    hnext ▸ (hknown.1 hkey).2.1.proper hleads'.placed.tidy
  have hinside := hleads.inside (Nat.zero_le _) ⟨[], opened_pushed s (.data name), fun _ hid =>
    (List.not_mem_nil hid).elim⟩
  refine ⟨known, ⟨hleads'.placed, ⟨_, _, hleads'.inside (Nat.zero_le _) hinside⟩,
    fun hkey => (hknown.1 hkey).1, fun hkey => (hknown.1 hkey).2.1,
    fun hkey => .inr (hleads'.placed.held_of_proper (hproper hkey)),
    fun hkey _ => hleads'.placed.older (hproper hkey),
    fun hkey hvar => (hknown.1 hkey).2.2.resolve_left hvar⟩, fun node hnode =>
        ⟨?_, h.plain node hnode⟩,
    hparam⟩
  exact (h.names node hnode).mono hrefers

/-- A run that keeps an invariant gives good results. -/
theorem Run.Keeps.ends {σ α : Type} {inv : σ → Prop} {good : α → Prop} {run : Run σ α} {s : σ}
    (h : Keeps inv run good) (hs : inv s) : Ends run s fun a _ => good a := by
  intro a s' hrun
  obtain ⟨b, s'', hrun', -, hgood⟩ := h s hs
  rw [hrun] at hrun'
  cases hrun'
  exact hgood

/-- Items are defaulted one after the other. -/
theorem defaulted_mapM {ι β : Type} {kinds : Partition Kind} {run : ι → Check β}
    {rel : ι → β → Prop} : ∀ {items : List ι}, (∀ item ∈ items, ∀ c : Checker,
      Kind.Defaulted kinds c.store.kinds → Ends (run item) c fun b c' =>
        Kind.Defaulted kinds c'.store.kinds ∧ rel item b) →
    ∀ c : Checker, Kind.Defaulted kinds c.store.kinds → Ends (items.mapM run) c fun bs c' =>
      Kind.Defaulted kinds c'.store.kinds ∧ List.Forall₂ rel items bs := by
  intro items hrun
  induction items with
  | nil => exact fun c hc => Ends.pure ⟨hc, .nil⟩
  | cons item rest ih =>
    intro c hc
    rw [List.mapM_cons]
    refine Ends.bind ((hrun item List.mem_cons_self c hc).mono ?_)
    rintro b c₁ ⟨hc₁, hb⟩
    refine Ends.bind ((ih (fun other hother => hrun other (List.mem_cons_of_mem _ hother)) c₁
      hc₁).mono ?_)
    rintro bs c₂ ⟨hc₂, hbs⟩
    exact Ends.pure ⟨hc₂, .cons hb hbs⟩

/-- A tree of defaulted kinds. -/
abbrev TypeNode.TurnedDefault (kinds : Partition Kind) : TypeNode Attributes →
    TypeNode Attributes → Prop :=
  TypeNode.Turned fun kind kind' => kind' = (kind.substitute kinds).starred

theorem defaultNode_defaulted {kinds : Partition Kind} {tree : TypeNode Attributes}
    (hkinded : tree.Kinded) (c : Checker) (hc : Kind.Defaulted kinds c.store.kinds) :
    Ends (defaultNode tree) c fun tree' c' =>
      Kind.Defaulted kinds c'.store.kinds ∧ tree.TurnedDefault kinds tree' :=
  TypeNode.traverse_turned (default_turns kinds) hc hkinded.carries

/-- The types of a constructor are defaulted. -/
theorem defaultConstructor_defaulted {kinds : Partition Kind} {checked : CheckedConstructor}
    (hkinded : checked.Kinded) (c : Checker) (hc : Kind.Defaulted kinds c.store.kinds) :
    Ends (defaultConstructor checked) c fun checked' c' => Kind.Defaulted kinds c'.store.kinds ∧
      ∀ tree' ∈ checked'.types, ∃ tree ∈ checked.types, tree.TurnedDefault kinds tree' := by
  refine Ends.bind ((defaulted_mapM (fun field hfield c hc =>
    defaultNode_defaulted (hkinded.1 field hfield) c hc) c hc).mono ?_)
  rintro fields' c₁ ⟨hc₁, hfields'⟩
  have hresult : Ends (traverseOption defaultNode checked.result) c₁ fun result' c' =>
      Kind.Defaulted kinds c'.store.kinds ∧ ∀ tree' ∈ result'.toList,
        ∃ tree ∈ checked.result.toList, tree.TurnedDefault kinds tree' := by
    cases hwritten : checked.result with
    | none => exact Ends.pure ⟨hc₁, fun _ htree => (List.not_mem_nil htree).elim⟩
    | some tree =>
      refine Ends.bind ((defaultNode_defaulted (hkinded.2 tree hwritten) c₁ hc₁).mono ?_)
      rintro tree' c₂ ⟨hc₂, htree⟩
      refine Ends.pure ⟨hc₂, fun other hother => ⟨tree, by simp, ?_⟩⟩
      obtain rfl : other = tree' := by simpa using hother
      exact htree
  refine Ends.bind (hresult.mono ?_)
  rintro result' c₂ ⟨hc₂, hresult'⟩
  refine Ends.pure ⟨hc₂, fun tree' htree' => ?_⟩
  rcases List.mem_append.1 htree' with htree' | htree'
  · obtain ⟨tree, htree, hturned⟩ := exists_related_left hfields' htree'
    exact ⟨tree, List.mem_append_left _ htree, hturned⟩
  · obtain ⟨tree, htree, hturned⟩ := hresult' tree' htree'
    exact ⟨tree, List.mem_append_right _ htree, hturned⟩

/-- What the parts of a checked declaration say about its parameters: the kind of the declaration
is made of theirs, and every use of a parameter carries the kind of the parameter. -/
structure Agrees (params : List (TypeVarNode Attributes)) (kind : Kind)
    (trees : List (TypeNode Attributes)) : Prop where
  kind : ∃ kinds, (∀ kind ∈ kinds, kind.Ground) ∧
    params.map (fun param => param.here.kindBy id) = kinds.map some ∧ kind = dataKind kinds
  uses : ∀ tree ∈ trees, ∀ param ∈ params, ∀ use ∈ tree.usesOf param.name,
    use.kindBy id = param.here.kindBy id

/-- How the check of a declaration ends: no kind is left unsolved. -/
def Check.defaultParts (params : List (TypeVarNode Attributes)) (kind : Kind)
    (constructors : List CheckedConstructor) :
    Check (List (TypeVarNode Attributes) × Kind × List CheckedConstructor) := do
  let params ← params.mapM fun param =>
    param.traverse fun attributes => (Solve.default attributes : Check Attributes)
  let kind ← Solve.defaultKind kind
  pure (params, kind, ← constructors.mapM defaultConstructor)

/-- When all uses of a parameter stand for the same as its kind, they agree once they are
defaulted. -/
theorem agrees_of_defaulted {params : List (TypeVarNode Attributes)} {kinds : List Kind}
    {constructors : List CheckedConstructor} {c : Checker} (hs : c.store.Sound)
    (hkinds : params.map (fun param => param.here.kindBy id) = kinds.map some)
    (hkinded : ∀ checked ∈ constructors, checked.Kinded)
    (huses : ∀ checked ∈ constructors, ∀ tree ∈ checked.types, ∀ param ∈ params, ∀ kind,
      param.here.kindBy id = some kind → ∀ use ∈ tree.usesOf param.name, ∃ own,
        use.kindBy id = some own ∧ own.bind c.store.expansion = kind.bind c.store.expansion) :
    Ends (defaultParts params (dataKind kinds) constructors) c fun parts _ =>
      Agrees parts.1 parts.2.1 (parts.2.2.flatMap CheckedConstructor.types) := by
  have hcarries : ∀ param ∈ params, ∃ kind, param.here.kindBy id = some kind := by
    intro param hmem
    have hmap : param.here.kindBy id ∈ kinds.map some := hkinds ▸ List.mem_map_of_mem hmem
    obtain ⟨kind, -, heq⟩ := List.mem_map.1 hmap
    exact ⟨kind, heq.symm⟩
  have hstart : Kind.Defaulted c.store.kinds c.store.kinds := ⟨⟨_, hs.kinds⟩, fun _ => rfl⟩
  refine Ends.bind ((TypeVarNode.traverseAll_turned (default_turns c.store.kinds) hstart
    fun param hmem => ?_).mono ?_)
  · obtain ⟨kind, hkind⟩ := hcarries param hmem
    exact ⟨kind, hkind, True.intro⟩
  rintro params' c₁ ⟨hc₁, hparams⟩
  obtain ⟨hdata, hc₂⟩ := hc₁.default (dataKind kinds)
  have hrun : Solve.defaultKind (dataKind kinds) c₁.store =
      .ok ((dataKind kinds).default c₁.store.kinds).1
        { c₁.store with kinds := ((dataKind kinds).default c₁.store.kinds).2 } := rfl
  refine Ends.bind (Ends.within (Meets.of_ok hrun ?_).ends)
  refine Ends.bind ((defaulted_mapM (fun checked hchecked c hc =>
    defaultConstructor_defaulted (hkinded checked hchecked) c hc) _ hc₂).mono ?_)
  rintro constructors' c₃ ⟨-, hconstructors⟩
  have hturned : ∀ {here here' : Located Attributes} {kind : Kind}, here.Turned
      (fun kind kind' => kind' = (kind.substitute c.store.kinds).starred) here' →
      here.kindBy id = some kind →
      here'.kindBy id = some (kind.bind c.store.expansion).starred := by
    intro here here' kind hhere hkind
    obtain ⟨_, hkind', rfl⟩ := hhere.kind kind hkind
    rw [hkind', ← substituteKind_eq_bind]
    rfl
  refine Ends.pure ⟨⟨kinds.map fun kind => (kind.bind c.store.expansion).starred, ?_, ?_, ?_⟩,
    fun tree' htree' param' hparam' use' huse' => ?_⟩
  · intro kind' hkind'
    obtain ⟨kind, -, rfl⟩ := List.mem_map.1 hkind'
    exact Kind.ground_starred _
  · have hview : params'.map (fun param => param.here.kindBy id) = params.map fun param =>
        (param.here.kindBy id).map fun kind => (kind.bind c.store.expansion).starred := by
      refine map_of_related ((List.forall₂_and_left _ _).2 ⟨hcarries, hparams⟩) ?_
      rintro param param' ⟨⟨kind, hkind⟩, -, hhere⟩
      rw [hkind, hturned hhere hkind]
      rfl
    have hkinds' := congrArg (List.map (Option.map fun kind : Kind =>
      (kind.bind c.store.expansion).starred)) hkinds
    rw [List.map_map, List.map_map] at hkinds'
    rw [List.map_map]
    exact hview.trans hkinds'
  · refine hdata.trans ?_
    rw [Kind.substitute_eq_bind, Kind.starred, dataKind_bind, dataKind_bind, List.map_map]
    rfl
  · obtain ⟨checked', hchecked', htree'⟩ := List.mem_flatMap.1 htree'
    obtain ⟨checked, hchecked, htrees⟩ := exists_related_left hconstructors hchecked'
    obtain ⟨tree, htree, hnode⟩ := htrees tree' htree'
    obtain ⟨param, hparam, hname, hhere⟩ := exists_related_left hparams hparam'
    rw [hname] at huse'
    obtain ⟨use, huse, huseHere⟩ := exists_related_left (hnode.usesOf param.name) huse'
    obtain ⟨kind, hkind⟩ := hcarries param hparam
    obtain ⟨own, hown, heq⟩ := huses checked hchecked tree htree param hparam kind hkind use huse
    rw [hturned huseHere hown, hturned hhere hkind, heq]

/-- Only the result matters of what is done in a frame. -/
theorem quietly_withScope {α : Type} {tag : ScopeKind} {body : Check α} {good : α → Prop}
    (hadds : Appends body)
    (h : Quietly body { c with store := c.store.pushed tag } fun a _ => good a) :
    Quietly (withScope tag body) c fun a _ => good a := by
  have haddsPop : ∀ a : α, Appends (do
      let _ ← (Solve.popScope tag.tag : Check _)
      pure a) := fun a => (Appends.lift _).bind fun _ => Appends.pure _
  refine Quietly.bind (Appends.lift _) (fun _ => hadds.bind haddsPop)
    (Quietly.lift (Ends.modify ?_))
  refine Quietly.bind hadds haddsPop (h.mono fun a c' ha => ?_)
  exact Quietly.of_ends (Ends.bind fun _ _ _ => Ends.pure ha)

theorem Appends.inferTypeVar (var : TypeVarNode Name) : Appends (inferTypeVar var) :=
  (Appends.lift _).bind fun _ => Appends.bindTypeVar _ _

theorem Appends.bindData (text : String) (name : QualifiedName) (here : Located Attributes) :
    Appends (bindData text name here) :=
  (Appends.lift _).bind fun _ => Appends.lift _

theorem Appends.defaultConstructor (checked : CheckedConstructor) :
    Appends (defaultConstructor checked) := by
  have hnode : ∀ node : TypeNode Attributes, Appends (defaultNode node) :=
    Appends.traverse fun _ => Appends.lift _
  refine (Appends.mapM fun _ _ => hnode _).bind fun _ => ?_
  exact (Appends.traverseOption hnode _).bind fun _ => Appends.pure _

theorem Appends.defaultParts (params : List (TypeVarNode Attributes)) (kind : Kind)
    (constructors : List CheckedConstructor) : Appends (defaultParts params kind constructors) := by
  refine (Appends.mapM fun param _ => Appends.typeVar (fun _ =>
      Appends.lift _) param).bind fun _ => ?_
  refine (Appends.lift _).bind fun _ => ?_
  exact (Appends.mapM fun _ _ => Appends.defaultConstructor _).bind fun _ => Appends.pure _

theorem appends_checkBound (d : Data Name) (name : QualifiedName)
    (params : List (TypeVarNode Attributes)) (kind : Kind) : Appends (do
      bindData d.name name (kinded d.here kind)
      let constructors ← d.constructors.mapM checkConstructor
      defaultParts params kind constructors) :=
  (Appends.bindData _ _ _).bind fun _ => (Appends.mapM fun _ _ => Appends.checkConstructor _).bind
    fun _ => Appends.defaultParts _ _ _

theorem appends_checkFields (d : Data Name) (name : QualifiedName)
    (params : List (TypeVarNode Attributes)) : Appends (do
      let kinds ← params.mapM fun param => kindOf param.here
      bindData d.name name (kinded d.here (dataKind kinds))
      let constructors ← d.constructors.mapM checkConstructor
      defaultParts params (dataKind kinds) constructors) :=
  (Appends.mapM fun _ _ => Appends.kindOf _).bind fun _ => appends_checkBound d name params _

theorem Appends.checkData (d : Data Name) (name : QualifiedName) : Appends (checkData d name) :=
  Appends.withScope ((Appends.mapM fun _ _ => Appends.inferTypeVar _).bind
      (appends_checkFields d name))

/-- What finds the parts of a declaration makes them agree. -/
theorem checkData_agrees {d : Data Name} {name : QualifiedName} (hs : c.store.Tidy)
    (hnamed : d.Named) (hplain : d.Plain name c.store) :
    Quietly (checkData d name) c fun parts _ =>
      Agrees parts.1 parts.2.1 (parts.2.2.flatMap CheckedConstructor.types) := by
  refine quietly_withScope ((Appends.mapM fun _ _ => Appends.inferTypeVar _).bind
    (appends_checkFields d name)) ?_
  have hplaced := hs.placed.pushed (.data name)
  refine Quietly.bind (Appends.mapM fun _ _ => Appends.inferTypeVar _) (appends_checkFields d name)
    (Quietly.of_ends ((bound_mapM inferTypeVar TypeVarNode.name d.typeParams
      (fun var _ c' hleads => ?_) _ hplaced.leads.toLeads).mono ?_))
  · exact inferTypeVar_bound var hleads.placed ⟨c.store.stack, _, hleads.inside (Nat.zero_le _)
      ⟨[], opened_pushed c.store _, fun _ hid => (List.not_mem_nil hid).elim⟩⟩
  rintro params c₁ ⟨hleads, hnames, hkinds, hbound⟩
  refine Quietly.bind (Appends.mapM fun _ _ => Appends.kindOf _) (fun kinds =>
    appends_checkBound d name params (dataKind kinds))
        (Quietly.of_ends ((kindOf_mapM_ends params c₁).mono ?_))
  rintro kinds c₁ ⟨rfl, hcarried⟩
  have hlive : ∀ kind ∈ kinds, c₁.store.Live kind := by
    intro kind hkind
    have hmap : some kind ∈ params.map fun param => param.here.kindBy id :=
      hcarried ▸ List.mem_map_of_mem hkind
    obtain ⟨param, hparam, heq⟩ := List.mem_map.1 hmap
    obtain ⟨own, hown, hownLive, -⟩ := hkinds param hparam
    rw [heq, Option.some.injEq] at hown
    exact hown ▸ hownLive
  have htidy := hleads.placed.tidy
  refine Quietly.bind (Appends.bindData _ _ _) (fun _ => (Appends.mapM fun _ _ =>
    Appends.checkConstructor _).bind fun _ => Appends.defaultParts _ _ _)
        (Quietly.of_ends ((bindData_placed d.name name _ htidy.placed).mono ?_))
  rintro _ c₂ ⟨hleads₂, hnext, hbound₂⟩
  obtain ⟨known, hplaces, hfits, hparam⟩ := hplain.places hleads hnames hcarried hlive hbound
    hleads₂ hnext hbound₂
  refine Quietly.bind (Appends.mapM fun _ _ => Appends.checkConstructor _)
    (fun _ => Appends.defaultParts _ _ _) ?_
  refine (placed_mapM (fun checked s => checked.Kinded ∧ ∀ tree ∈ checked.types,
    TypeNode.Holds known c₁.store.nextKind s tree) (fun hleads hchecked => ⟨hchecked.1,
      fun tree htree => (hchecked.2 tree htree).leads hleads.toLeads⟩) d.constructors
    (fun node hnode => ⟨Appends.checkConstructor node, fun c hplaces => ?_⟩) c₂ hplaces).mono ?_
  · have hkinded : Ends (checkConstructor node) c fun checked _ => checked.Kinded :=
      (checkConstructor_keeps (hnamed.2.2 node hnode)).ends rfl
    refine Ends.mono (Ends.and hkinded (checkConstructor_holds (fun written hwritten =>
      hfits written (List.mem_flatMap.2 ⟨node, hnode, hwritten⟩)) hplaces)) ?_
    rintro checked c' ⟨hkinded, hholds⟩ hquiet
    obtain ⟨hleads, htrees⟩ := hholds hquiet
    exact ⟨hleads, hkinded, htrees⟩
  · rintro constructors c₃ ⟨hleads₃, hchecked⟩
    refine Quietly.of_ends (agrees_of_defaulted hleads₃.placed.tidy.sound hcarried
      (fun checked hmem => (hchecked checked hmem).1) ?_)
    intro checked hmem tree htree param hmem' kind hkind use huse
    obtain ⟨own, hown, -, -, heq⟩ := (hchecked checked hmem).2 tree htree param.name kind
      ((hparam param hmem').trans hkind) use huse
    exact ⟨own, hown, heq⟩

/-! ## Types of constructors -/

theorem Appends.typeOfTypeName (name : Name) (kind : Kind) : Appends
    (typeOfTypeName name kind) := by
  unfold Check.typeOfTypeName
  split
  · split
    · exact Appends.pure _
    · exact Appends.throw _
  · exact Appends.pure _
  · exact Appends.pure _
  · exact Appends.pure _
  · exact Appends.lift _
  · exact Appends.throw _

theorem Appends.typeOfVarNode (node : TypeVarNode Attributes) : Appends (typeOfVarNode node) :=
  (Appends.kindOf _).bind fun _ => Appends.typeOfTypeName _ _

mutual
theorem Appends.toType : ∀ node : TypeNode Attributes, Appends (toType node)
  | .quantified here binders body => by
    rw [Check.toType]
    refine (Appends.mapM fun var _ => Appends.typeOfVarNode var).bind fun _ => ?_
    refine (Appends.toType body).bind fun _ => (Appends.kindOf _).bind fun _ => Appends.pure _
  | .function _ args result => by
    rw [Check.toType]
    exact (Appends.toTypes args).bind fun _ => (Appends.toType result).bind fun _ => Appends.pure _
  | .apply here head args => by
    rw [Check.toType]
    refine (Appends.toType head).bind fun _ => (Appends.toTypes args).bind fun _ => ?_
    exact (Appends.kindOf _).bind fun _ => Appends.pure _
  | .reference here _ => by
    rw [Check.toType]
    exact (Appends.kindOf _).bind fun _ => Appends.typeOfTypeName _ _
  | .var node => by
    rw [Check.toType]
    exact Appends.typeOfVarNode node
theorem Appends.toTypes : ∀ nodes : List (TypeNode Attributes), Appends (toTypes nodes)
  | [] => by
    rw [Check.toTypes]
    exact Appends.pure _
  | node :: rest => by
    rw [Check.toTypes]
    exact (Appends.toType node).bind fun _ => (Appends.toTypes rest).bind fun _ => Appends.pure _
end

theorem Appends.bindConstructor (params : List Ty) (applied : Ty) (kind : Kind)
    (node : Constructor Name) (checked : CheckedConstructor) :
    Appends (bindConstructor params applied kind node checked) := by
  refine (Appends.mapM fun _ _ => Appends.toType _).bind fun types => ?_
  dsimp only
  split
  · refine (Appends.toType _).bind fun _ => (Appends.lift _).bind fun _ => ?_
    refine (Appends.lift _).bind fun _ => (Appends.lift _).bind fun _ =>
        (Appends.lift _).bind fun _ => ?_
    exact (Appends.mapM fun _ _ => (Appends.lift _).bind fun _ => Appends.pure _).bind fun _ =>
      Appends.pure _
  · refine (Appends.pure _).bind fun _ => (Appends.lift _).bind fun _ => ?_
    refine (Appends.lift _).bind fun _ => (Appends.lift _).bind fun _ =>
        (Appends.lift _).bind fun _ => ?_
    exact (Appends.mapM fun _ _ => (Appends.lift _).bind fun _ => Appends.pure _).bind fun _ =>
      Appends.pure _

/-- A constructor is bound with the types that were checked. -/
theorem bindConstructor_types (params : List Ty) (applied : Ty) (kind : Kind)
    (node : Constructor Name) (checked : CheckedConstructor) :
    Gives (bindConstructor params applied kind node checked) fun node' =>
      node'.types ⊆ checked.types := by
  have hfields : ∀ types : List Ty, Gives (bindFields checked.name node.params
      (checked.fields.zip types)) fun params' =>
        params'.map ConstructorParam.ascription ⊆ checked.fields := by
    intro types
    have hitems : Gives (bindFields checked.name node.params (checked.fields.zip types))
        fun params' => List.Forall₂ (fun item param => param.ascription = item.2.1)
          (node.params.zip (checked.fields.zip types)) params' :=
      Gives.mapM_forall₂ (List.forall₂_same.2 fun item _ => Gives.skip fun _ => Gives.pure rfl)
    refine hitems.mono fun params' hparams' => ?_
    intro written hwritten
    obtain ⟨param', hparam', rfl⟩ := List.mem_map.1 hwritten
    obtain ⟨item, hitem, heq⟩ := exists_related_left hparams' hparam'
    rw [heq]
    exact (List.of_mem_zip (List.of_mem_zip hitem).2).1
  refine Gives.skip fun types => ?_
  dsimp only
  split
  all_goals
    refine Gives.skip fun _ => Gives.skip fun _ => Gives.skip fun _ => Gives.skip fun _ => ?_
    refine Gives.skip fun _ => Gives.bind (hfields types) fun params' hparams' => Gives.pure ?_
    exact List.append_subset.2 ⟨fun tree htree => List.mem_append_left _ (hparams' htree),
      List.subset_append_right _ _⟩

/-- The parts of an inferred declaration are those that were found. -/
theorem inferData_quietly {d : Data Name} {name : QualifiedName} (hname : d.here.info = .data name)
    {good : List (TypeVarNode Attributes) × Kind × List CheckedConstructor → Prop}
    (h : Quietly (checkData d name) c fun parts _ => good parts) :
    Quietly (inferData d) c fun d' _ => ∃ parts, good parts ∧ d'.typeParams = parts.1 ∧
      d'.here.kindBy id = some parts.2.1 ∧
        d'.types ⊆ parts.2.2.flatMap CheckedConstructor.types := by
  unfold inferData
  simp only [hname]
  refine Quietly.bind (Appends.checkData d name) (fun parts =>
      ?_) (h.mono fun parts c₁ hparts => ?_)
  · refine (Appends.bindData _ _ _).bind fun _ => ?_
    refine (Appends.mapM fun _ _ => Appends.typeOfVarNode _).bind fun _ => ?_
    exact (Appends.mapM fun _ _ => Appends.bindConstructor _ _ _ _ _).bind fun _ => Appends.pure _
  · refine Quietly.of_ends (Ends.bind fun _ c₂ _ => Ends.bind fun types c₃ _ => ?_)
    have hconstructors : Gives ((d.constructors.zip parts.2.2).mapM fun item =>
        bindConstructor types (if types.isEmpty then Ty.constructor name parts.2.1 else
          .apply (Ty.constructor name parts.2.1) types .type) parts.2.1 item.1 item.2)
        fun nodes => List.Forall₂ (fun item node => node.types ⊆ item.2.types)
          (d.constructors.zip parts.2.2) nodes :=
      Gives.mapM_forall₂ (List.forall₂_same.2 fun item _ => bindConstructor_types _ _ _ _ _)
    refine Ends.bind ((hconstructors c₃).mono fun nodes c₄ hnodes => ?_)
    refine Ends.pure ⟨parts, hparts, rfl, rfl, fun tree htree => ?_⟩
    obtain ⟨node, hnode, hmem⟩ := List.mem_flatMap.1 htree
    obtain ⟨item, hitem, hsubset⟩ := exists_related_left hnodes hnode
    exact List.mem_flatMap.2 ⟨item.2, (List.of_mem_zip hitem).2, hsubset hmem⟩

/-- Where a declaration has parameters with names of their own and its types are plain, an inference
that reports nothing gives it the kind that its parameters make, and every use of a parameter the
kind of the parameter. -/
theorem inferData_consistent {d : Data Name} {name : QualifiedName} (hs : c.store.Tidy)
    (hframes : c.store.stack.frames ≠ []) (hnamed : d.Named) (hname : d.here.info = .data name)
    (hplain : d.Plain name c.store) : ∃ d' c', inferData d c = .ok d' c' ∧
      (c'.log.items = c.log.items → d'.Consistent) := by
  obtain ⟨kind, shape, hshape⟩ : ∃ kind shape, c.store.stack.shape = kind :: shape := by
    obtain ⟨frame, rest, hrest⟩ := List.exists_cons_of_ne_nil hframes
    exact ⟨frame.kind, rest.map Frame.kind, by rw [Stack.shape, hrest, List.map_cons]⟩
  obtain ⟨d', c', hrun, -, -⟩ := inferData_keeps hnamed c hshape
  refine ⟨d', c', hrun, fun hquiet => ?_⟩
  obtain ⟨parts, hagrees, hparams, hkind, htypes⟩ :=
    inferData_quietly hname (checkData_agrees hs hnamed hplain) d' c' hrun hquiet
  obtain ⟨⟨kinds, hground, hcarried, heq⟩, huses⟩ := hagrees
  refine ⟨⟨kinds, hground, by rw [hparams, hcarried], by rw [hkind, heq]⟩, ?_⟩
  intro node hnode param hparam
  rw [hparams] at hparam
  exact huses node (htypes hnode) param hparam

namespace Sample

def home : NamespaceName := ⟨[], "M"⟩

/-- A frame for the namespace `M` is open, and nothing is bound in it. -/
def opened : Checker := ⟨"", Log.empty, Store.start.pushed (.ns home)⟩

/-- A constructor of a data type of `M` with its fields. -/
def constructing (data name : String) (fields : List (String × TypeNode Name)) :
    Constructor Name :=
  ⟨⟨default, .constructor (.ofData ⟨home, data⟩ name)⟩, name,
    fields.map fun field => ⟨nameless, field.1, field.2⟩, none⟩

def declaring (name : String) (params : List String) (constructors : List (Constructor Name)) :
    Data Name :=
  ⟨⟨default, .data ⟨home, name⟩⟩, name, params.map binder, constructors⟩

def used (name : String) : TypeNode Name := .var (binder name)

/-- `data Free[f, a] { Pure(value: a), Roll(layer: f[Free[f, a]]),
Lift(run: [x] { (x -> a) -> f[Free[f, x]] }) }`. -/
def free : Data Name :=
  let self (arg : TypeNode Name) := TypeNode.apply nameless
    (.reference ⟨default, .data ⟨home, "Free"⟩⟩ ⟨default, none, "Free"⟩) [used "f", arg]
  declaring "Free" ["f", "a"]
    [constructing "Free" "Pure" [("value", used "a")],
      constructing "Free" "Roll" [("layer", .apply nameless (used "f") [self (used "a")])],
      constructing "Free" "Lift" [("run", .quantified nameless [binder "x"] (.function nameless
        [.function nameless [used "x"] (used "a")]
        (.apply nameless (used "f") [self (used "x")])))]]

theorem free_named : free.Named := by
  simp [free, declaring, constructing, used, binder, Data.Named, Constructor.Named, TypeNode.Named,
    TypeNode.NamedList, TypeVarNode.Named, Name.NamesType, TypeNode.NamedOption]

theorem free_plain : free.Plain ⟨home, "Free"⟩ opened.store := by
  refine ⟨?_, by decide +kernel, by decide +kernel, by decide +kernel⟩
  simp [free, declaring, constructing, used, binder, Data.types, Constructor.types, Data.Refers,
    Data.paramNames, TypeNode.NamesWithin, TypeNode.AllNamesWithin, Name.isNameless,
    Name.canonical, Name.localText]

/-- The declaration is inferred quietly to one that passes a test. -/
def inferredQuietly (test : Data Attributes → Bool) (d : Data Name) (c : Checker) : Bool :=
  match inferData d c with
  | .ok d' c' => c'.log.items.isEmpty && test d'
  | .error _ _ => false

theorem exists_of_inferredQuietly {test : Data Attributes → Bool} {d : Data Name} {c : Checker}
    (h : inferredQuietly test d c = true) :
    ∃ d' c', inferData d c = .ok d' c' ∧ c'.log.items = [] ∧ test d' = true := by
  unfold inferredQuietly at h
  split at h
  · rename_i d' c' hrun
    rw [Bool.and_eq_true, List.isEmpty_iff] at h
    exact ⟨d', c', hrun, h⟩
  · cases h

theorem free_consistent : ∃ d' c', inferData free opened = .ok d' c' ∧ c'.log.items = [] ∧
    d'.Consistent := by
  have hquietly : inferredQuietly (fun _ => true) free opened = true := by decide +kernel
  obtain ⟨d', c', hrun, hquiet, -⟩ := exists_of_inferredQuietly hquietly
  obtain ⟨d'', c'', hrun', hconsistent⟩ := inferData_consistent (tidy_start.pushed (.ns home))
    (List.cons_ne_nil _ _) free_named rfl free_plain (c := opened)
  obtain ⟨rfl, rfl⟩ : d' = d'' ∧ c' = c'' := by
    rw [hrun] at hrun'
    cases hrun'
    exact ⟨rfl, rfl⟩
  exact ⟨d', c', hrun, hquiet, hconsistent hquiet⟩

/-- Some use of a parameter carries another kind than the parameter. -/
def differs (d : Data Attributes) : Bool :=
  d.types.any fun node => d.typeParams.any fun param =>
    (node.usesOf param.name).any fun use => use.kindBy id != param.here.kindBy id

theorem not_consistent_of_differs {d : Data Attributes} (h : differs d = true) :
    ¬ d.Consistent := by
  intro hconsistent
  simp only [differs, List.any_eq_true, bne_iff_ne] at h
  obtain ⟨node, hnode, param, hparam, use, huse, hne⟩ := h
  exact hne (hconsistent.uses node hnode param hparam use huse)

/-- `data a[a] { K(x: a[Int]) }`. -/
def overshadowed : Data Name :=
  declaring "a" ["a"] [constructing "a" "K" [("x", .apply nameless (used "a")
    [.reference ⟨default, .builtIn "Int"⟩ ⟨default, none, "Int"⟩])]]

/-- A parameter must not have the name of the declaration, which is bound in the frame of the
parameters. -/
theorem exists_overshadowed : ∃ d' c', inferData overshadowed opened = .ok d' c' ∧
    c'.log.items = [] ∧ ¬ d'.Consistent := by
  have hquietly : inferredQuietly differs overshadowed opened = true := by decide +kernel
  obtain ⟨d', c', hrun, hquiet, hdiffers⟩ := exists_of_inferredQuietly hquietly
  exact ⟨d', c', hrun, hquiet, not_consistent_of_differs hdiffers⟩

/-- `data D[p] { K(a: [x] { p[x] }, b: [y] { p[y] }, c: p[N.List]) }`. -/
def reused : Data Name :=
  let applied (arg : TypeNode Name) := TypeNode.apply nameless (used "p") [arg]
  declaring "D" ["p"] [constructing "D" "K"
    [("a", .quantified nameless [binder "x"] (applied (used "x"))),
      ("b", .quantified nameless [binder "y"] (applied (used "y"))),
      ("c", applied (named "List"))]]

/-- No argument of a parameter may be open. -/
theorem exists_outlived : ∃ d' c', inferData reused checker = .ok d' c' ∧ c'.log.items = [] ∧
    ¬ d'.Consistent := by
  have hquietly : inferredQuietly differs reused checker = true := by decide +kernel
  obtain ⟨d', c', hrun, hquiet, hdiffers⟩ := exists_of_inferredQuietly hquietly
  exact ⟨d', c', hrun, hquiet, not_consistent_of_differs hdiffers⟩

end Sample

end PolyFront
