import PolyFront.Proofs.Kinding.Soundness
import PolyFront.Proofs.Unification.Placement

/-!
# Kinds that are found together

The kinds of several written types are found one after the other while they share variables: the
kinds of the parameters around them.  What a use of such a name is given stays the kind of the
name as long as variables stay in place.  They do where no variable of an inner quantifier is
solved by a part of the kind of an applied variable: no argument of an applied variable may be
open.
-/

namespace PolyFront

open Run Check Store

/-! ## Uses -/

mutual
/-- The uses of a type variable, but not below a quantifier that binds its name again. -/
def TypeNode.usesOf (key : String) : TypeNode Attributes → List (Located Attributes)
  | .quantified _ binders body =>
    if key ∈ binders.map TypeVarNode.name then [] else body.usesOf key
  | .function _ args result => TypeNode.usesOfAll key args ++ result.usesOf key
  | .apply _ head args => head.usesOf key ++ TypeNode.usesOfAll key args
  | .reference _ _ => []
  | .var node => if node.here.info.name.canonical = key then [node.here] else []
def TypeNode.usesOfAll (key : String) : List (TypeNode Attributes) → List (Located Attributes)
  | [] => []
  | node :: rest => node.usesOf key ++ TypeNode.usesOfAll key rest
end

theorem TypeNode.mem_usesOfAll {key : String} {nodes : List (TypeNode Attributes)}
    {use : Located Attributes} : use ∈ TypeNode.usesOfAll key nodes ↔
      ∃ node ∈ nodes, use ∈ node.usesOf key := by
  induction nodes with
  | nil => simp [usesOfAll]
  | cons node rest ih => simp [usesOfAll, ih]

mutual
/-- Related trees use a name alike. -/
theorem TypeNode.Turned.usesOf {rel : Kind → Kind → Prop} (key : String) :
    ∀ {node node' : TypeNode Attributes}, node.Turned rel node' →
      List.Forall₂ (Located.Turned rel) (node.usesOf key) (node'.usesOf key)
  | .quantified _ _ _, _, h => by
    obtain ⟨here', binders', body', rfl, -, hbinders, hbody⟩ := h
    rw [TypeNode.usesOf, TypeNode.usesOf, TypeVarNode.names_turned hbinders]
    split
    · exact .nil
    · exact hbody.usesOf key
  | .function _ _ _, _, h => by
    obtain ⟨here', args', result', rfl, -, hargs, hresult⟩ := h
    rw [TypeNode.usesOf, TypeNode.usesOf]
    exact List.rel_append (TypeNode.TurnedAll.usesOf key hargs) (hresult.usesOf key)
  | .apply _ _ _, _, h => by
    obtain ⟨here', head', args', rfl, -, hhead, hargs⟩ := h
    rw [TypeNode.usesOf, TypeNode.usesOf]
    exact List.rel_append (hhead.usesOf key) (TypeNode.TurnedAll.usesOf key hargs)
  | .reference _ _, _, h => by
    obtain ⟨here', id', rfl, -⟩ := h
    rw [TypeNode.usesOf, TypeNode.usesOf]
    exact .nil
  | .var _, _, h => by
    obtain ⟨var', rfl, hhere⟩ := h
    rw [TypeNode.usesOf, TypeNode.usesOf, hhere.name]
    split
    · exact .cons hhere .nil
    · exact .nil
theorem TypeNode.TurnedAll.usesOf {rel : Kind → Kind → Prop} (key : String) :
    ∀ {nodes nodes' : List (TypeNode Attributes)}, TypeNode.TurnedAll rel nodes nodes' →
      List.Forall₂ (Located.Turned rel) (TypeNode.usesOfAll key nodes)
        (TypeNode.usesOfAll key nodes')
  | [], _, h => by
    obtain rfl := h
    exact .nil
  | _ :: _, _, h => by
    obtain ⟨node', rest', rfl, hnode, hrest⟩ := h
    rw [TypeNode.usesOfAll, TypeNode.usesOfAll]
    exact List.rel_append (hnode.usesOf key) (TypeNode.TurnedAll.usesOf key hrest)
end

/-- Every use of a name carries a kind that stands for the same as that of the name. -/
def TypeNode.Follows (known : KindContext) (s : Store) (node : TypeNode Attributes) : Prop :=
  ∀ key kind, known key = some kind → ∀ use ∈ node.usesOf key,
    ∃ own, use.kindBy id = some own ∧ own.bind s.expansion = kind.bind s.expansion

theorem TypeNode.Follows.absorbed {known : KindContext} {s s' : Store}
    {node : TypeNode Attributes} (h : node.Follows known s) (habsorbs : Absorbs s s') :
    node.Follows known s' := by
  intro key kind hkey use huse
  obtain ⟨own, hown, heq⟩ := h key kind hkey use huse
  exact ⟨own, hown, by rw [← habsorbs.bind own, heq, habsorbs.bind]⟩

/-! ## Open types -/

namespace TypeNode

/-- The written type is one of the names, or it is one of them applied. -/
def headIn (names : List String) : TypeNode Name → Bool
  | .quantified _ _ _ => false
  | .function _ _ _ => false
  | .apply _ head _ => head.headIn names
  | .reference here _ => names.contains here.info.canonical
  | .var node => names.contains node.here.info.canonical

/-- The kind of the written type can be a variable of its own: it is a use of a local name, or an
applied variable. -/
def isOpen (vars locals : List String) : TypeNode Name → Bool
  | .quantified _ _ _ => false
  | .function _ _ _ => false
  | .apply _ head _ => head.headIn vars
  | .reference here _ => locals.contains here.info.canonical
  | .var node => locals.contains node.here.info.canonical

mutual
/-- No argument of an applied variable is open.  The names that quantifiers bind are local. -/
def isPlain (vars locals : List String) : TypeNode Name → Bool
  | .quantified _ binders body =>
    let names := binders.map TypeVarNode.name
    body.isPlain (names ++ vars) (names ++ locals)
  | .function _ args result => arePlain vars locals args && result.isPlain vars locals
  | .apply _ head args =>
    head.isPlain vars locals && arePlain vars locals args &&
      (!head.headIn vars || args.all fun arg => !arg.isOpen vars locals)
  | .reference _ _ => true
  | .var _ => true
def arePlain (vars locals : List String) : List (TypeNode Name) → Bool
  | [] => true
  | node :: rest => node.isPlain vars locals && arePlain vars locals rest
end

end TypeNode

/-- A kind without variables, or one that makes a proper type. -/
def Kind.Rigid (kind : Kind) : Prop := kind.Ground ∨ ∃ args, kind = .higher args .type

namespace Kind.Rigid

variable {kind : Kind}

theorem bind (h : kind.Rigid) (f : Nat → Kind) : (kind.bind f).Rigid := by
  rcases h with hground | ⟨args, rfl⟩
  · rw [Kind.bind_self fun id hid => (List.not_mem_nil (hground ▸ hid)).elim]
    exact .inl hground
  · exact .inr ⟨_, by rw [Kind.bind_higher, Kind.bind_type]⟩

theorem ne_unsolved (h : kind.Rigid) (id : Nat) : kind ≠ .unsolved id := by
  rintro rfl
  rcases h with hground | ⟨args, heq⟩
  · exact Kind.not_ground_unsolved id hground
  · cases heq

theorem result {args : List Kind} {result : Kind} (h : (Kind.higher args result).Rigid) :
    result.Rigid := by
  rcases h with hground | ⟨args', heq⟩
  · exact .inl (Kind.ground_higher.1 hground).2
  · obtain ⟨-, rfl⟩ := Kind.higher.inj heq
    exact .inl Kind.ground_type

end Kind.Rigid

/-! ## Names in their places -/

variable {known : KindContext} {vars locals : List String} {mark : Nat} {pending : List Nat}
  {s s' : Store} {kind : Kind}

/-- If the kind stands for a variable, then for one that is older than the mark. -/
def Store.Older (mark : Nat) (s : Store) (kind : Kind) : Prop :=
  ∀ v, kind.bind s.expansion = .unsolved v → v < mark

theorem Store.Older.absorbed (h : s.Older mark kind) (habsorbs : Absorbs s s')
    (hs' : s'.Placed mark pending) : s'.Older mark kind := by
  intro v hv
  obtain ⟨w, hw, hexpansion⟩ := habsorbs.of_unsolved hv
  have hlt := h w hw
  rcases hs'.oldest w v hexpansion with hv | hle
  · exact hv
  · exact Nat.lt_of_le_of_lt hle hlt

theorem Store.Placed.older (h : s.Placed mark pending) (hkind : kind.Proper mark) :
    s.Older mark kind := by
  intro v hv
  cases kind with
  | unsolved id =>
    have hid := Kind.proper_unsolved.1 hkind
    rw [Kind.bind_unsolved] at hv
    rcases h.oldest id v hv with hlt | hle
    · exact hlt
    · exact Nat.lt_of_le_of_lt hle hid
  | type => rw [Kind.bind_type] at hv; cases hv
  | higher args result => rw [Kind.bind_higher] at hv; cases hv

/-- Names are bound in the store as the context says, to flat kinds.  Those that are not local are
bound to kinds that are older than the mark, and those that are no variables to rigid ones. -/
structure KindContext.Places (known : KindContext) (vars locals : List String) (mark : Nat)
    (pending : List Nat) (s : Store) : Prop where
  placed : s.Placed mark pending
  framed : ∃ outer tag, s.Inside outer tag 0
  bound : ∀ {key kind}, known key = some kind → s.kindBound key = some kind
  live : ∀ {key kind}, known key = some kind → s.Live kind
  flat : ∀ {key kind}, known key = some kind → s.Flat mark pending kind
  older : ∀ {key kind}, known key = some kind → key ∉ locals → s.Older mark kind
  rigid : ∀ {key kind}, known key = some kind → key ∉ vars → kind.Rigid

theorem KindContext.Places.leads (h : known.Places vars locals mark pending s) (more : List Nat)
    (hleads : LeadsCalmly mark (more ++ pending) s s') :
    known.Places vars locals mark (more ++ pending) s' where
  placed := hleads.placed
  framed :=
    have ⟨outer, tag, hinside⟩ := h.framed
    ⟨outer, tag, hleads.inside (Nat.zero_le _) hinside⟩
  bound hkey := (hleads.bound _).trans (h.bound hkey)
  live hkey := hleads.live (h.live hkey)
  flat hkey := ((h.flat hkey).append more).absorbed hleads.absorbs hleads.placed
  older hkey hlocal := (h.older hkey hlocal).absorbed hleads.absorbs hleads.placed
  rigid := h.rigid

/-! ## What a run finds -/

/-- The kind of a node was found.  Some variables are pending for it: what they stand for is older
than the mark, or it is the kind of the node. -/
structure TypeNode.Found (known : KindContext) (mark : Nat) (pending more : List Nat)
    (s s' : Store) (node : TypeNode Attributes) (kind : Kind) : Prop where
  leads : LeadsCalmly mark (more ++ pending) s s'
  follows : node.Follows known s'
  carries : node.here.kindBy id = some kind
  live : s'.Live kind
  flat : s'.Flat mark (more ++ pending) kind
  settled : ∀ id ∈ more, ∀ v, s'.expansion id = .unsolved v →
    v < mark ∨ kind.bind s'.expansion = .unsolved v

/-- A run that finds the kinds of a type, which need not be open nor stem from a variable. -/
def Uncovers (known : KindContext) (vars locals : List String) (mark : Nat) (isOpen stems : Bool)
    (run : Check (TypeNode Attributes)) : Prop :=
  ∀ (pending : List Nat) (c : Checker), known.Places vars locals mark pending c.store →
    Quietly run c fun node c' =>
        ∃ more kind, node.Found known mark pending more c.store c'.store kind ∧
      (isOpen = false → c'.store.Older mark kind) ∧
      (stems = false → (kind.bind c'.store.expansion).Rigid)

/-- A run that finds the kinds of a type of the given kind, which is held. -/
def Confirms (known : KindContext) (vars locals : List String) (mark : Nat) (isOpen : Bool)
    (run : Check (TypeNode Attributes)) (expected : Kind) : Prop :=
  ∀ (pending : List Nat) (c : Checker), known.Places vars locals mark pending c.store →
    c.store.Live expected → c.store.Held mark pending expected →
    Quietly run c fun node c' => LeadsCalmly mark pending c.store c'.store ∧
      node.Follows known c'.store ∧ (isOpen = false → c'.store.Older mark expected)

/-- Inferring a kind and comparing it with a held one. -/
theorem Uncovers.subsume {isOpen stems : Bool} {infer : Check (TypeNode Attributes)}
    (h : Uncovers known vars locals mark isOpen stems infer) (hadds : Appends infer) (range : Range)
    (expected : Kind) :
    Confirms known vars locals mark isOpen (KindJudgement.subsume range infer expected) expected :=
        by
  intro pending c hplaces hlive hheld
  unfold KindJudgement.subsume
  have hmismatch := KindJudgement.appends_mismatch range
  refine Quietly.bind hadds (fun node => (Appends.kindOf _).bind fun actual =>
    (Appends.lift _).bind fun ok => hmismatch node expected actual ok) ?_
  refine (h pending c hplaces).mono fun node c₁ hnode => ?_
  obtain ⟨more, kind, hfound, holder, -⟩ := hnode
  refine Quietly.bind (Appends.kindOf _) (fun actual => (Appends.lift _).bind fun ok =>
    hmismatch node expected actual ok) (Quietly.kindOf fun actual hactual => ?_)
  obtain rfl : actual = kind := by
    rw [hfound.carries] at hactual
    exact (Option.some.inj hactual).symm
  have hexpected : c₁.store.Flat mark (more ++ pending) expected :=
    .inr ((hheld.append more).absorbed hfound.leads.absorbs hfound.leads.placed)
  obtain ⟨matched, s₂, hrun, hrefines, hmatched⟩ := Solve.checkSubKind_placed hfound.leads.placed
    hfound.live (hfound.leads.live hlive) hfound.flat hexpected
  refine Quietly.bind (Appends.lift _) (fun ok => hmismatch node expected actual ok)
    (Quietly.lift (Meets.of_ok hrun ?_).ends)
  cases matched with
  | false => exact KindJudgement.quietly_mismatch range node expected actual
  | true =>
    obtain ⟨hplaced, hsame⟩ := hmatched rfl
    have habsorbs : Absorbs c₁.store s₂ := hrefines.absorbs
    have hleads := hfound.leads.trans (hrefines.leads hplaced)
    -- What was pending for the node is settled by the kind that is expected.
    have hsettled : ∀ id ∈ more, ∀ v, s₂.expansion id = .unsolved v →
        s₂.Anchored mark pending v := by
      intro id hid v hv
      obtain ⟨w, hw, hlater⟩ := habsorbs.of_expansion hv
      rcases hfound.settled id hid w hw with hlt | hkind
      · rcases hplaced.oldest w v hlater with hlt' | hle
        · exact .inl hlt'
        · exact .inl (Nat.lt_of_le_of_lt hle hlt)
      · have hnode : expected.bind s₂.expansion = .unsolved v := by
          rw [← hsame, ← habsorbs.bind, hkind, Kind.bind_unsolved, hlater]
        obtain ⟨w', hw', hlater'⟩ := hleads.absorbs.of_unsolved hnode
        exact (hheld w' (by simp [hw'])).absorbed hleads.absorbs hplaced.oldest hlater'
    refine Quietly.pure ⟨hleads.replace (hplaced.settle hsettled),
      hfound.follows.absorbed habsorbs, fun hopen v hv => ?_⟩
    exact (holder hopen).absorbed habsorbs hplaced v (by rw [hsame, hv])

/-- What is asked of a type that is not open can be left out. -/
theorem Confirms.mono {isOpen isOpen' : Bool} {run : Check (TypeNode Attributes)} {expected : Kind}
    (h : Confirms known vars locals mark isOpen run expected)
    (himp : isOpen' = false → isOpen = false) :
    Confirms known vars locals mark isOpen' run expected :=
  fun pending c hplaces hlive hheld => (h pending c hplaces hlive hheld).mono fun _ _ hdone =>
    ⟨hdone.1, hdone.2.1, fun hopen => hdone.2.2 (himp hopen)⟩

/-- The expected kind can be substituted first. -/
theorem Confirms.substituted {isOpen : Bool} {check : Kind → Check (TypeNode Attributes)}
    (hadds : ∀ expected, Appends (check expected))
    (h : ∀ expected, Confirms known vars locals mark isOpen (check expected) expected)
    (expected : Kind) : Confirms known vars locals mark isOpen
      (do check (← (Solve.substituteKind expected : Check Kind))) expected := by
  intro pending c hplaces hlive hheld
  refine Quietly.bind (Appends.lift _) hadds (Quietly.lift (Ends.bind (Ends.get (Ends.pure ?_))))
  rw [substituteKind_eq_bind]
  have hself : (expected.bind c.store.expansion).bind c.store.expansion =
      expected.bind c.store.expansion := hplaces.placed.tidy.sound.bind_expansion expected
  have hheld' : c.store.Held mark pending (expected.bind c.store.expansion) := by
    rwa [Held, hself]
  refine (h _ pending c hplaces (hlive.bind hplaces.placed.tidy.closed) hheld').mono ?_
  rintro node c' ⟨hleads, hfollows, holder⟩
  refine ⟨hleads, hfollows, fun hopen v hv => holder hopen v ?_⟩
  rwa [hleads.absorbs.bind]

/-- The kinds of a judgement are found in both ways. -/
structure KindJudgement.Uncovers (judgement : KindJudgement) (known : KindContext)
    (vars locals : List String) (mark : Nat) (isOpen stems : Bool) : Prop where
  infers : PolyFront.Uncovers known vars locals mark isOpen stems judgement.infer
  checks : ∀ expected, Confirms known vars locals mark isOpen (judgement.check expected) expected

theorem KindJudgement.Uncovers.ofInference {isOpen stems : Bool} {range : Range}
    {infer : Check (TypeNode Attributes)}
        (h : PolyFront.Uncovers known vars locals mark isOpen stems infer)
    (hadds : Appends infer) :
    (KindJudgement.ofInference range infer).Uncovers known vars locals mark isOpen stems :=
  ⟨h, Confirms.substituted (KindJudgement.appends_subsume range hadds) (h.subsume hadds range)⟩

/-- Types that are checked one after the other. -/
theorem confirms_mapM {ι : Type} {isOpen : Bool} (run : ι → Check (TypeNode Attributes))
    (expected : ι → Kind) : ∀ {items : List ι}, (∀ item ∈ items, Appends (run item)) →
    (∀ item ∈ items, Confirms known vars locals mark isOpen (run item) (expected item)) →
    ∀ c : Checker, known.Places vars locals mark pending c.store →
    (∀ item ∈ items, c.store.Live (expected item) ∧ c.store.Held mark pending (expected item)) →
    Quietly (items.mapM run) c fun nodes c' => LeadsCalmly mark pending c.store c'.store ∧
      (∀ node ∈ nodes, node.Follows known c'.store) ∧
      ∀ item ∈ items, isOpen = false → c'.store.Older mark (expected item) := by
  intro items hadds hconfirms
  induction items with
  | nil =>
    intro c hplaces _
    exact Quietly.pure ⟨hplaces.placed.leads, fun _ hnode => (List.not_mem_nil hnode).elim,
      fun _ hitem => (List.not_mem_nil hitem).elim⟩
  | cons item rest ih =>
    intro c hplaces hexpected
    have haddsRest : Appends (rest.mapM run) := Appends.mapM fun other hother =>
      hadds other (List.mem_cons_of_mem _ hother)
    obtain ⟨hlive, hheld⟩ := hexpected item List.mem_cons_self
    rw [List.mapM_cons]
    refine Quietly.bind (hadds item List.mem_cons_self)
      (fun node => haddsRest.bind fun _ => Appends.pure _) ?_
    refine (hconfirms item List.mem_cons_self pending c hplaces hlive hheld).mono ?_
    rintro node c₁ ⟨hleads, hfollows, holder⟩
    refine Quietly.bind haddsRest (fun _ => Appends.pure _) ?_
    refine (ih (fun other hother => hadds other (List.mem_cons_of_mem _ hother))
      (fun other hother => hconfirms other (List.mem_cons_of_mem _ hother)) c₁
      (hplaces.leads [] hleads) fun other hother => ?_).mono ?_
    · obtain ⟨hlive', hheld'⟩ := hexpected other (List.mem_cons_of_mem _ hother)
      exact ⟨hleads.live hlive', hheld'.absorbed hleads.absorbs hleads.placed⟩
    · rintro nodes c₂ ⟨hleads', hnodes, holder'⟩
      refine Quietly.pure ⟨hleads.trans hleads', fun other hother =>
          ?_, fun other hother hopen => ?_⟩
      · rcases List.mem_cons.1 hother with rfl | hother
        · exact hfollows.absorbed hleads'.absorbs
        · exact hnodes other hother
      · rcases List.mem_cons.1 hother with rfl | hother
        · exact (holder hopen).absorbed hleads'.absorbs hleads'.placed
        · exact holder' other hother hopen

/-! ## The forms of types -/

/-- The use of a name has the kind of the name. -/
theorem uncovers_name {here : Located Name} (hname : here.info.isNameless = false)
    (hkind : known here.info.canonical = some kind) (node : Kind → TypeNode Attributes)
    (hhere : ∀ kind, (node kind).here = kinded here kind)
    (huses : ∀ key kind, ∀ use ∈ (node kind).usesOf key,
      key = here.info.canonical ∧ use = kinded here kind) :
    Uncovers known vars locals mark (locals.contains here.info.canonical)
      (vars.contains here.info.canonical) (do pure (node (← kindOfName here.info))) := by
  intro pending c hplaces
  have htidy := hplaces.placed.tidy
  have hself := htidy.sound.bind_expansion kind
  refine Quietly.bind (Appends.kindOfName _) (fun _ => Appends.pure _) ?_
  refine (kindOfName_quietly hname (hplaces.bound hkind)).mono ?_
  rintro _ _ ⟨rfl, rfl⟩
  rw [substituteKind_eq_bind]
  refine Quietly.pure ⟨[], _, ⟨hplaces.placed.leads, ?_, ?_, (hplaces.live hkind).bind htidy.closed,
    ?_, fun _ hid => (List.not_mem_nil hid).elim⟩, fun hlocal v hv => ?_, fun hvar => ?_⟩
  · intro key kind' hkey use huse
    obtain ⟨rfl, rfl⟩ := huses key _ use huse
    rw [hkind, Option.some.injEq] at hkey
    exact ⟨_, kindBy_kinded _ _, by rw [hself, hkey]⟩
  · rw [hhere]
    rfl
  · rw [Flat, Held, hself]
    exact hplaces.flat hkind
  · rw [← Bool.not_eq_true, List.contains_iff_mem] at hlocal
    exact hplaces.older hkind hlocal v (by rwa [hself] at hv)
  · rw [← Bool.not_eq_true, List.contains_iff_mem] at hvar
    exact ((hplaces.rigid hkind hvar).bind _).bind _

theorem uncovers_reference {here : Located Name} (id : QualifiedId)
    (hname : here.info.isNameless = false) (hkind : known here.info.canonical = some kind) :
    Uncovers known vars locals mark (locals.contains here.info.canonical)
      (vars.contains here.info.canonical) (KindJudgement.reference here id).infer := by
  refine uncovers_name hname hkind (fun kind => .reference (kinded here kind) id)
    (fun _ => rfl) fun key kind use huse => ?_
  rw [TypeNode.usesOf] at huse
  cases huse

theorem uncovers_var {node : TypeVarNode Name} (hname : node.here.info.isNameless = false)
    (hkind : known node.here.info.canonical = some kind) :
    Uncovers known vars locals mark (locals.contains node.here.info.canonical)
      (vars.contains node.here.info.canonical) (KindJudgement.var node).infer := by
  refine uncovers_name hname hkind
    (fun kind => .var ⟨kinded node.here kind, node.quantifier, node.name⟩) (fun _ => rfl)
    fun key kind use huse => ?_
  rw [TypeNode.usesOf] at huse
  split at huse
  · rename_i hkey
    exact ⟨hkey.symm, List.mem_singleton.1 huse⟩
  · cases huse

theorem held_type (s : Store) (mark : Nat) (pending : List Nat) : s.Held mark pending .type :=
  held_of_ground Kind.ground_type

theorem live_type (s : Store) : s.Live .type := fun id hid => by simp at hid

/-- A type of kind `*`. -/
theorem TypeNode.Found.proper {node : TypeNode Attributes} (hleads : LeadsCalmly mark pending s s')
    (hfollows : node.Follows known s') (hkind : node.here.kindBy id = some .type) :
    node.Found known mark pending [] s s' .type :=
  ⟨hleads, hfollows, hkind, live_type s', .inr (held_type s' mark _),
    fun _ hid => (List.not_mem_nil hid).elim⟩

theorem uncovers_function {here : Located Name} {args : List KindJudgement}
    {result : KindJudgement}
    (hargs : ∀ arg ∈ args, arg.Adds ∧
      ∀ expected, Confirms known vars locals mark true (arg.check expected) expected)
    (hresult : result.Adds)
    (hresultFinds : ∀ expected, Confirms known vars locals mark true
        (result.check expected) expected) :
    Uncovers known vars locals mark false false (KindJudgement.function here args result).infer :=
        by
  intro pending c hplaces
  have hlast : ∀ nodes : List (TypeNode Attributes), Appends (do
      let node ← result.check .type
      pure (.function (kinded here .type) nodes node) : Check (TypeNode Attributes)) := fun nodes =>
    (hresult.check _).bind fun _ => Appends.pure _
  refine Quietly.bind (Appends.mapM fun arg harg => (hargs arg harg).1.check _) hlast ?_
  refine (confirms_mapM (fun arg : KindJudgement => arg.check .type) (fun _ => .type)
    (fun arg harg => (hargs arg harg).1.check _) (fun arg harg => (hargs arg harg).2 _) c hplaces
    fun _ _ => ⟨live_type _, held_type _ _ _⟩).mono ?_
  rintro nodes c₁ ⟨hleads, hnodes, -⟩
  refine Quietly.bind (hresult.check _) (fun _ => Appends.pure _) ?_
  refine (hresultFinds .type pending c₁ (hplaces.leads [] hleads) (live_type _)
    (held_type _ _ _)).mono ?_
  rintro node c₂ ⟨hleads', hnode, -⟩
  refine Quietly.pure ⟨[], .type, .proper (hleads.trans hleads') ?_ rfl, fun _ v hv =>
      ?_, fun _ => ?_⟩
  · intro key kind hkey use huse
    rw [TypeNode.usesOf, List.mem_append, TypeNode.mem_usesOfAll] at huse
    rcases huse with ⟨arg, harg, huse⟩ | huse
    · exact (hnodes arg harg).absorbed hleads'.absorbs key kind hkey use huse
    · exact hnode key kind hkey use huse
  · rw [Kind.bind_type] at hv
    cases hv
  · exact .inl Kind.ground_type

/-! ## Applications -/

/-- Variables for all items of a list. -/
theorem freshKinds_placed {α : Type} (items : List α) : ∀ {c : Checker},
    c.store.Placed mark pending → (∃ outer tag, c.store.Inside outer tag 0) →
    Ends (items.mapM fun _ => (Solve.freshKind : Check Kind)) c fun kinds c' =>
      kinds = (List.range' c.store.nextKind items.length).map .unsolved ∧
      LeadsCalmly mark pending c.store c'.store ∧
      c'.store.nextKind = c.store.nextKind + items.length ∧
      (∀ id ∈ List.range' c.store.nextKind items.length, c'.store.Registered id) ∧
      c'.store.expansion = c.store.expansion := by
  induction items with
  | nil =>
    exact fun hplaced _ => Ends.pure ⟨rfl, hplaced.leads, rfl, fun _ hid =>
        (List.not_mem_nil hid).elim, rfl⟩
  | cons item rest ih =>
    intro c hplaced hframed
    obtain ⟨outer, tag, hinside⟩ := hframed
    obtain ⟨s₁, hrun, hleads, hnext, hregistered, hexpansion⟩ :=
      Solve.freshKind_placed hplaced hinside
    rw [List.mapM_cons]
    refine Ends.bind (Ends.within (Meets.of_ok hrun ?_).ends)
    refine Ends.bind ((ih (c := { c with store := s₁ }) hleads.placed
      ⟨outer, tag, hleads.inside (Nat.zero_le _) hinside⟩).mono ?_)
    rintro kinds c₂ ⟨rfl, hleads', hnext', hregistered', hexpansion'⟩
    dsimp only at hleads' hnext' hregistered' hexpansion'
    rw [hnext] at hnext' hregistered'
    refine Ends.pure ⟨?_, hleads.trans hleads', ?_, fun id hid => ?_, hexpansion'.trans hexpansion⟩
    · rw [List.length_cons, List.range'_succ, List.map_cons, hnext]
    · rw [hnext', List.length_cons]
      omega
    · rw [List.length_cons, List.range'_succ, List.mem_cons] at hid
      rcases hid with rfl | hid
      · exact hleads'.registered _ hregistered
      · exact hregistered' id hid

/-- The kind of a head was split into those of its arguments and that of its result.  The variables
that were created for them are pending. -/
structure Splits (mark : Nat) (pending ids : List Nat) (s s' : Store) (head : Kind)
    (parts : List Kind × Kind) : Prop where
  leads : LeadsCalmly mark (ids ++ pending) s s'
  same : head.bind s'.expansion = (Kind.higher parts.1 parts.2).bind s'.expansion
  live : s'.Live (.higher parts.1 parts.2)
  held : s'.Held mark (ids ++ pending) (.higher parts.1 parts.2)
  created : ∀ id ∈ ids, ¬head.Rigid ∧ (.unsolved id ∈ parts.1 ∨ parts.2 = .unsolved id)
  rigid : head.Rigid → parts.2.Rigid

/-- New variables for the parts of a kind. -/
theorem shallow_of_variables {ids : List Nat} {id : Nat} :
    (Kind.higher (ids.map .unsolved) (.unsolved id)).Shallow 1 := by
  intro depth part hat
  cases hat with
  | root => exact Nat.zero_le _
  | arg harg hat =>
    obtain ⟨other, -, rfl⟩ := List.mem_map.1 harg
    exact Nat.succ_le_succ (Kind.shallow_unsolved 0 other _ _ hat)
  | result hat => exact Nat.succ_le_succ (Kind.shallow_unsolved 0 id _ _ hat)

theorem mem_unknowns_of_variables {ids : List Nat} {id v : Nat} :
    v ∈ (Kind.higher (ids.map .unsolved) (.unsolved id)).unknowns ↔ v ∈ ids ++ [id] := by
  simp [List.mem_flatMap]

/-- The kind of an applied head is split, if nothing is reported. -/
theorem applied_splits {range : Range} {arity : Nat} {head : Kind} {c : Checker}
    (hplaced : c.store.Placed mark pending) (hframed : ∃ outer tag, c.store.Inside outer tag 0)
    (hlive : c.store.Live head) (hself : head.bind c.store.expansion = head)
    (hflat : c.store.Flat mark pending head) :
    Quietly (KindJudgement.applied range arity head) c fun parts c' => parts.1.length = arity ∧
      ∃ ids, Splits mark pending ids c.store c'.store head parts := by
  by_cases hsolid : ∀ id, head ≠ .unsolved id
  · refine (KindJudgement.applied_quietly hsolid).mono ?_
    rintro parts c' ⟨rfl, rfl, hlength⟩
    refine ⟨hlength, [], hplaced.leads, rfl, hlive, hflat.held fun v hv => ?_,
      fun _ hid => (List.not_mem_nil hid).elim, Kind.Rigid.result⟩
    rw [Kind.bind_higher] at hv
    cases hv
  · obtain ⟨id, rfl⟩ : ∃ id, head = .unsolved id := by simpa using hsolid
    have hid : c.store.Registered id := hlive id (by simp)
    have hfinal : c.store.expansion id = .unsolved id := by rwa [Kind.bind_unsolved] at hself
    have hreports : ∀ parts : List Kind × Kind, ∀ message : String, Appends (do
        report range message
        pure parts : Check (List Kind × Kind)) := fun _ _ =>
      (Appends.report _ _).bind fun _ => Appends.pure _
    have hlast : ∀ parts : List Kind × Kind, Appends
        (if Kind.occurs id (.higher parts.1 parts.2) then do
          report range (KindError.mismatchedApplication (.higher parts.1 parts.2)
              (.unsolved id)).message
          pure parts
        else do
          let _ ← Solve.instantiateKind .sub id (.higher parts.1 parts.2)
          pure parts) := by
      intro parts
      split
      · exact hreports _ _
      · exact (Appends.lift _).bind fun _ => Appends.pure _
    unfold KindJudgement.applied
    dsimp only
    refine Quietly.bind (Appends.mapM fun _ _ => Appends.lift _)
      (fun args => (Appends.lift _).bind fun result => hlast (args, result))
      (Quietly.of_ends ((freshKinds_placed (List.replicate arity ()) hplaced hframed).mono ?_))
    rintro args c₁ ⟨rfl, hleads, hnext, hregistered, hexpansion⟩
    rw [List.length_replicate] at hnext hregistered ⊢
    obtain ⟨outer, tag, hinside⟩ := hframed
    obtain ⟨s₂, hfresh, hleads', -, hregistered', hexpansion'⟩ := Solve.freshKind_placed
      hleads.placed (hleads.inside (Nat.zero_le _) hinside)
    refine Quietly.bind (Appends.lift _) (fun result => hlast (_, result))
      (Quietly.lift (Meets.of_ok hfresh ?_).ends)
    split
    · refine Quietly.bind (Appends.report _ _) (fun _ => Appends.pure _) ?_
      exact (Quietly.report _ _).mono fun _ _ hfalse => hfalse.elim
    -- The new variables stand for themselves, and the head is older.
    generalize hids : List.range' c.store.nextKind arity ++ [c₁.store.nextKind] = ids
    have hids' : ∀ v ∈ ids, c.store.nextKind ≤ v ∧ s₂.Registered v := by
      intro v hv
      rw [← hids, List.mem_append, List.mem_singleton] at hv
      rcases hv with hv | rfl
      · exact ⟨(List.mem_range'_1.1 hv).1, hleads'.registered v (hregistered v hv)⟩
      · exact ⟨hleads.created, hregistered'⟩
    have hmem : ∀ v, v ∈ (Kind.higher ((List.range' c.store.nextKind arity).map .unsolved)
        (.unsolved c₁.store.nextKind)).unknowns ↔ v ∈ ids := fun v => by
      rw [mem_unknowns_of_variables, hids]
    have hsame : s₂.expansion = c.store.expansion := hexpansion'.trans hexpansion
    have hmentions : ∀ v ∈ ids, v ≠ id ∧ s₂.expansion v = .unsolved v := by
      intro v hv
      have hold : ∀ w, c.store.Registered w → w < v := fun w hw =>
        Nat.lt_of_lt_of_le (hplaced.tidy.created w hw) (hids' v hv).1
      refine ⟨(Nat.ne_of_lt (hold id hid)).symm, ?_⟩
      rw [hsame]
      exact hplaced.tidy.free v fun hw => Nat.lt_irrefl v (hold v hw)
    have hpended : s₂.Placed mark (ids ++ pending) := hleads'.placed.pend fun v hv => (hids' v hv).2
    have hpendedHeld : s₂.Held mark (ids ++ pending) (.higher ((List.range' c.store.nextKind
        arity).map .unsolved) (.unsolved c₁.store.nextKind)) := by
      intro v hv
      obtain ⟨w, hw, hv⟩ := Kind.mem_unknowns_bind.1 hv
      refine hpended.held_pending (List.mem_append_left _ ((hmem w).1 hw)) v ?_
      rwa [Kind.bind_unsolved]
    have hpendedLive : s₂.Live (.higher ((List.range' c.store.nextKind arity).map .unsolved)
        (.unsolved c₁.store.nextKind)) := fun v hv => (hids' v ((hmem v).1 hv)).2
    obtain ⟨s₃, hsolve, hleads₃, hsolved, hothers⟩ := Solve.instantiateKind_placed hpended
      (hleads'.registered id (hleads.registered id hid)) (by rw [hsame, hfinal]) hpendedLive
      (fun v hv => hmentions v ((hmem v).1 hv)) hpendedHeld shallow_of_variables
    refine Quietly.bind (Appends.lift _) (fun _ => Appends.pure _)
      (Quietly.lift (Meets.of_ok hsolve ?_).ends)
    refine Quietly.pure ⟨by simp, ids, (hleads.trans hleads').trans hleads₃, ?_,
      hleads₃.live hpendedLive, hpendedHeld.absorbed hleads₃.absorbs hleads₃.placed,
      fun v hv => ⟨fun hrigid => hrigid.ne_unsolved id rfl, ?_⟩,
      fun hrigid => (hrigid.ne_unsolved id rfl).elim⟩
    · rw [Kind.bind_unsolved, hsolved]
      exact (Kind.bind_self hothers).symm
    · rw [← hids, List.mem_append, List.mem_singleton] at hv
      rcases hv with hv | rfl
      · exact .inl (List.mem_map_of_mem hv)
      · exact .inr rfl

/-- An application has a kind of its own at most if its head stems from a variable, and then its
arguments are not open. -/
theorem uncovers_apply {here : Located Name} {head : KindJudgement} {args : List KindJudgement}
    {isOpen stems : Bool} (hhead : head.Adds)
    (hheadFinds : Uncovers known vars locals mark isOpen stems head.infer)
    (hargs : ∀ arg ∈ args, arg.Adds ∧
      ∀ expected, Confirms known vars locals mark (!stems) (arg.check expected) expected) :
    Uncovers known vars locals mark stems stems (KindJudgement.apply here head args).infer := by
  intro pending c hplaces
  have haddsArgs : ∀ parts : List Kind × Kind, Appends ((args.zip parts.1).mapM fun pair =>
      pair.1.check pair.2) := fun parts =>
    Appends.mapM fun pair hpair => (hargs pair.1 (List.of_mem_zip hpair).1).1.check _
  have haddsLast : ∀ (node : TypeNode Attributes) (parts : List Kind × Kind), Appends (do
      let args ← (args.zip parts.1).mapM fun pair => pair.1.check pair.2
      pure (.apply (kinded here parts.2) node args) : Check (TypeNode Attributes)) :=
    fun node parts => (haddsArgs parts).bind fun _ => Appends.pure _
  refine Quietly.bind hhead.infer (fun node => (Appends.kindOf _).bind fun _ =>
    (Appends.lift _).bind fun _ => (KindJudgement.appends_applied _ _ _).bind (haddsLast node)) ?_
  refine (hheadFinds pending c hplaces).mono fun node c₁ hnode => ?_
  obtain ⟨more, kind, hfound, -, hrigid⟩ := hnode
  refine Quietly.bind (Appends.kindOf _) (fun _ => (Appends.lift _).bind fun _ =>
    (KindJudgement.appends_applied _ _ _).bind (haddsLast node))
    (Quietly.kindOf fun actual hactual => ?_)
  obtain rfl : actual = kind := by
    rw [hfound.carries] at hactual
    exact (Option.some.inj hactual).symm
  refine Quietly.bind (Appends.lift _)
    (fun _ => (KindJudgement.appends_applied _ _ _).bind (haddsLast node))
    (Quietly.lift (Ends.bind (Ends.get (Ends.pure ?_))))
  rw [substituteKind_eq_bind]
  have hplaces₁ := hplaces.leads more hfound.leads
  have hplaced₁ := hplaces₁.placed
  have hself := hplaced₁.tidy.sound.bind_expansion actual
  refine Quietly.bind (KindJudgement.appends_applied _ _ _) (haddsLast node)
    ((applied_splits hplaced₁ hplaces₁.framed (hfound.live.bind hplaced₁.tidy.closed) hself
      (by rw [Flat, Held, hself]; exact hfound.flat)).mono ?_)
  rintro ⟨argKinds, result⟩ c₂ ⟨hlength, ids, hsplits⟩
  dsimp only at hlength ⊢
  obtain ⟨hargsLive, hresultLive⟩ := live_higher.1 hsplits.live
  obtain ⟨hargsHeld, hresultHeld⟩ := held_higher.1 hsplits.held
  refine Quietly.bind (haddsArgs (argKinds, result)) (fun _ => Appends.pure _) ?_
  refine (confirms_mapM (fun pair : KindJudgement × Kind => pair.1.check pair.2) Prod.snd
    (fun pair hpair => (hargs pair.1 (List.of_mem_zip hpair).1).1.check _)
    (fun pair hpair => (hargs pair.1 (List.of_mem_zip hpair).1).2 pair.2) c₂
    (hplaces₁.leads ids hsplits.leads) fun pair hpair =>
      ⟨hargsLive _ (List.of_mem_zip hpair).2, hargsHeld _ (List.of_mem_zip hpair).2⟩).mono ?_
  rintro nodes c₃ ⟨hleads, hnodes, holder⟩
  have hlater : Absorbs c₁.store c₃.store := hsplits.leads.absorbs.trans hleads.absorbs
  have hresultRigid : stems = false → (result.bind c₃.store.expansion).Rigid := fun hstems =>
    (hsplits.rigid (hrigid hstems)).bind _
  refine Quietly.pure ⟨ids ++ more, result, ⟨?_, ?_, rfl, hleads.live hresultLive, .inr ?_, ?_⟩,
    fun hstems v hv => ((hresultRigid hstems).ne_unsolved v hv).elim, hresultRigid⟩
  · rw [List.append_assoc]
    exact (hfound.leads.trans hsplits.leads).trans hleads
  · intro key kind hkey use huse
    rw [TypeNode.usesOf, List.mem_append, TypeNode.mem_usesOfAll] at huse
    rcases huse with huse | ⟨arg, harg, huse⟩
    · exact hfound.follows.absorbed hlater key kind hkey use huse
    · exact hnodes arg harg key kind hkey use huse
  · rw [List.append_assoc]
    exact hresultHeld.absorbed hleads.absorbs hleads.placed
  · intro id hid v hv
    rcases List.mem_append.1 hid with hid | hid
    -- A variable of this application stands for an argument, which is not open, or the result.
    · obtain ⟨hnotRigid, harg | rfl⟩ := hsplits.created id hid
      · have hstems : stems = true := by
          rw [← Bool.not_eq_false]
          exact fun hstems => hnotRigid (hrigid hstems)
        have hpairs : (args.zip argKinds).map Prod.snd = argKinds :=
          List.map_snd_zip (Nat.le_of_eq hlength)
        rw [← hpairs] at harg
        obtain ⟨pair, hpair, heq⟩ := List.mem_map.1 harg
        refine .inl (holder pair hpair (by rw [hstems]; rfl) v ?_)
        rwa [heq, Kind.bind_unsolved]
      · exact .inr (by rwa [Kind.bind_unsolved])
    -- One of the head is settled already, since the kind of the head is no variable now.
    · obtain ⟨w, hw, hsolved⟩ := hlater.of_expansion hv
      rcases hfound.settled id hid w hw with hlt | hkind
      · rcases hleads.placed.oldest w v hsolved with hlt' | hle
        · exact .inl hlt'
        · exact .inl (Nat.lt_of_le_of_lt hle hlt)
      · have hhigher := hsplits.same
        rw [hkind, Kind.bind_unsolved, Kind.bind_higher] at hhigher
        have hlast := hleads.absorbs w
        rw [hhigher, Kind.bind_higher, hsolved] at hlast
        cases hlast

/-! ## Binders -/

/-- The binder was put into the innermost frame, with a flat kind. -/
structure TypeVarNode.Bound (mark : Nat) (pending : List Nat) (s s' : Store) (name : String)
    (var : TypeVarNode Attributes) : Prop where
  leads : Leads mark pending s s'
  name : var.name = name
  flat : ∃ kind, var.here.kindBy id = some kind ∧ s'.Live kind ∧ s'.Flat mark pending kind
  bound : ∀ key, s'.kindBound key =
    if key = var.name then var.here.info.classifier.kind? else s.kindBound key

theorem bindTypeVar_bound (var : TypeVarNode Name) {c : Checker}
    (hplaced : c.store.Placed mark pending)
    (hlive : c.store.Live kind) (hflat : c.store.Flat mark pending kind) :
    Ends (bindTypeVar var kind) c fun var' c' =>
      var'.Bound mark pending c.store c'.store var.name := by
  refine Ends.bind (Ends.within ((Solve.putType_placed hplaced var.name
    (kinded var.here kind)).mono ?_))
  rintro _ s' ⟨hleads, -, hbound⟩
  exact Ends.pure ⟨hleads, rfl, ⟨kind, rfl, hleads.live hlive,
    hflat.absorbed hleads.absorbs hleads.placed⟩, hbound⟩

theorem inferTypeVar_bound (var : TypeVarNode Name) {c : Checker}
    (hplaced : c.store.Placed mark pending) (hframed : ∃ outer tag, c.store.Inside outer tag 0) :
    Ends (inferTypeVar var) c fun var' c' => var'.Bound mark pending c.store c'.store var.name := by
  obtain ⟨outer, tag, hinside⟩ := hframed
  obtain ⟨s₁, hrun, hleads, -, hregistered, hexpansion⟩ := Solve.freshKind_placed hplaced hinside
  refine Ends.bind (Ends.within (Meets.of_ok hrun ?_).ends)
  have hlive : s₁.Live (.unsolved c.store.nextKind) := fun id hid => by
    obtain rfl : id = c.store.nextKind := by simpa using hid
    exact hregistered
  have hflat : s₁.Flat mark pending (.unsolved c.store.nextKind) := by
    refine .inl ⟨c.store.nextKind, ?_⟩
    rw [Kind.bind_unsolved, hexpansion]
    exact hplaced.tidy.free _ fun hid => Nat.lt_irrefl _ (hplaced.tidy.created _ hid)
  refine (bindTypeVar_bound var (c := { c with store := s₁ }) hleads.placed hlive hflat).mono ?_
  rintro var' c' ⟨hleads', hname, hkind, hbound⟩
  refine ⟨hleads.toLeads.trans hleads', hname, hkind, fun key => (hbound key).trans ?_⟩
  exact congrArg (ite (key = var'.name) _ ·) (hleads.bound key)

/-- Binders one after the other. -/
theorem bound_mapM {ι : Type} (run : ι → Check (TypeVarNode Attributes)) (name : ι → String) :
    ∀ items : List ι, (∀ item ∈ items, ∀ c : Checker, Leads mark pending s c.store →
      Ends (run item) c fun var c' => var.Bound mark pending c.store c'.store (name item)) →
    ∀ c : Checker, Leads mark pending s c.store → Ends (items.mapM run) c fun bound c' =>
      Leads mark pending c.store c'.store ∧ bound.map TypeVarNode.name = items.map name ∧
      (∀ var ∈ bound, ∃ kind, var.here.kindBy id = some kind ∧ c'.store.Live kind ∧
        c'.store.Flat mark pending kind) ∧
      ∀ key, c'.store.kindBound key = KindContext.bind c.store.kindBound bound key := by
  intro items hrun
  induction items with
  | nil =>
    intro c hleads
    exact Ends.pure ⟨hleads.placed.leads.toLeads, rfl, fun _ hvar => (List.not_mem_nil hvar).elim,
      fun _ => rfl⟩
  | cons item rest ih =>
    intro c hleads
    rw [List.mapM_cons]
    refine Ends.bind ((hrun item List.mem_cons_self c hleads).mono ?_)
    rintro var c₁ ⟨hleads₁, hname, ⟨kind, hkind, hlive, hflat⟩, hbound⟩
    refine Ends.bind ((ih (fun other hother => hrun other (List.mem_cons_of_mem _ hother)) c₁
      (hleads.trans hleads₁)).mono ?_)
    rintro bound c₂ ⟨hleads₂, hnames, hkinds, hbound'⟩
    refine Ends.pure ⟨hleads₁.trans hleads₂, ?_, fun other hother => ?_, fun key => ?_⟩
    · rw [List.map_cons, List.map_cons, hname, hnames]
    · rcases List.mem_cons.1 hother with rfl | hother
      · exact ⟨kind, hkind, hleads₂.live hlive, hflat.absorbed hleads₂.absorbs hleads₂.placed⟩
      · exact hkinds other hother
    · have hfirst : c₁.store.kindBound = fun key => if key = var.name then
          var.here.info.classifier.kind? else c.store.kindBound key := funext hbound
      rw [hbound' key, hfirst]
      rfl

/-! ## Quantifiers -/

/-- A frame is pushed. -/
theorem KindContext.Places.pushed (h : known.Places vars locals mark pending s) (tag : ScopeKind) :
    known.Places vars locals mark pending (s.pushed tag) where
  placed := h.placed.pushed tag
  framed := ⟨s.stack, tag.tag, [], opened_pushed s tag, fun _ hid => (List.not_mem_nil hid).elim⟩
  bound hkey := (kindBound_pushed s tag _).trans (h.bound hkey)
  live hkey := fun id hid => (opened_pushed s tag).registered_iff.2 (.inr (h.live hkey id hid))
  flat := h.flat
  older := h.older
  rigid := h.rigid

/-- Binders are put into the innermost frame. -/
theorem KindContext.Places.bind (h : known.Places vars locals mark pending s)
    (hleads : Leads mark pending s s') {bound : List (TypeVarNode Attributes)} {names : List String}
    (hnames : bound.map TypeVarNode.name = names)
    (hkinds : ∀ var ∈ bound, ∃ kind, var.here.kindBy id = some kind ∧ s'.Live kind ∧
      s'.Flat mark pending kind)
    (hbound : ∀ key, s'.kindBound key = KindContext.bind s.kindBound bound key) :
    (known.bind bound).Places (names ++ vars) (names ++ locals) mark pending s' := by
  have hcases : ∀ {key kind}, known.bind bound key = some kind →
      (key ∈ names ∧ s'.kindBound key = some kind ∧ s'.Live kind ∧ s'.Flat mark pending kind) ∨
        known key = some kind ∧ s'.kindBound key = s.kindBound key := by
    intro key kind hkey
    rcases KindContext.bind_cases bound key with ⟨var, hvar, hname, hbind⟩ | ⟨-, hbind⟩
    · rw [hbind] at hkey
      obtain ⟨own, hown, hlive, hflat⟩ := hkinds var hvar
      rw [Located.kindBy_id, hkey, Option.some.injEq] at hown
      refine .inl ⟨?_, by rw [hbound, hbind, hkey], hown ▸ hlive, hown ▸ hflat⟩
      rw [← hnames, ← hname]
      exact List.mem_map_of_mem hvar
    · rw [hbind] at hkey
      exact .inr ⟨hkey, by rw [hbound, hbind]⟩
  obtain ⟨outer, tag, hinside⟩ := h.framed
  refine ⟨hleads.placed, ⟨outer, tag, hleads.inside (Nat.zero_le _) hinside⟩, fun hkey => ?_,
    fun hkey => ?_, fun hkey => ?_, fun hkey hlocal => ?_, fun hkey hvar => ?_⟩
  · rcases hcases hkey with ⟨-, hsame, -⟩ | ⟨hkey, hsame⟩
    · exact hsame
    · exact hsame.trans (h.bound hkey)
  · rcases hcases hkey with ⟨-, -, hkind, -⟩ | ⟨hkey, -⟩
    · exact hkind
    · exact hleads.live (h.live hkey)
  · rcases hcases hkey with ⟨-, -, -, hflat⟩ | ⟨hkey, -⟩
    · exact hflat
    · exact (h.flat hkey).absorbed hleads.absorbs hleads.placed
  · rcases hcases hkey with ⟨hname, -⟩ | ⟨hkey, -⟩
    · exact (hlocal (List.mem_append_left _ hname)).elim
    · exact (h.older hkey fun hmem => hlocal (List.mem_append_right _ hmem)).absorbed hleads.absorbs
        hleads.placed
  · rcases hcases hkey with ⟨hname, -⟩ | ⟨hkey, -⟩
    · exact (hvar (List.mem_append_left _ hname)).elim
    · exact h.rigid hkey fun hmem => hvar (List.mem_append_right _ hmem)

/-- Work in a frame that drops its variables.  What the outer variables stand for is kept. -/
theorem withScope_placed {α : Type} {tag : ScopeKind} {body : Check α} {c : Checker}
    {post : α → Checker → Prop} (htag : tag.tag.dropsVariables = true) (hadds : Appends body)
    (hplaced : c.store.Placed mark pending)
    (hbody : Quietly body { c with store := c.store.pushed tag } fun a c₁ =>
      Leads mark pending (c.store.pushed tag) c₁.store ∧ ∀ c₂ : Checker,
        LeadsCalmly mark pending c.store c₂.store →
        (∀ id, c.store.Registered id → c₂.store.expansion id = c₁.store.expansion id) → post a c₂) :
    Quietly (withScope tag body) c post := by
  have haddsPop : ∀ a : α, Appends (do
      let _ ← (Solve.popScope tag.tag : Check _)
      pure a) := fun a => (Appends.lift _).bind fun _ => Appends.pure _
  refine Quietly.bind (Appends.lift _) (fun _ => hadds.bind haddsPop)
    (Quietly.lift (Ends.modify ?_))
  refine Quietly.bind hadds haddsPop (hbody.mono ?_)
  rintro a c₁ ⟨hleads, hpost⟩
  obtain ⟨frame, s₂, hrun, hleads₂, hkept⟩ := Solve.popScope_placed hplaced hleads htag
  refine Quietly.bind (Appends.lift _) (fun _ => Appends.pure _)
    (Quietly.lift (Meets.of_ok hrun ?_).ends)
  exact Quietly.pure (hpost { c₁ with store := s₂ } hleads₂ hkept)

/-- What follows the kinds of outer names does so when the kinds are substituted and a frame is
popped. -/
theorem TypeNode.Follows.popped {node node' : TypeNode Attributes} {s₁ : Store}
    (h : node.Follows known s₁)
    (hturned : node.Turned (fun kind kind' => kind' = s₁.substituteKind kind) node')
    (hlive : ∀ {key kind}, known key = some kind → s.Live kind) (hs' : s'.Sound)
    (hkept : ∀ id, s.Registered id → s'.expansion id = s₁.expansion id) :
    node'.Follows known s' := by
  intro key kind hkey use' huse'
  obtain ⟨use, huse, hhere⟩ := exists_related_left (hturned.usesOf key) huse'
  obtain ⟨own, hown, heq⟩ := h key kind hkey use huse
  obtain ⟨_, hown', rfl⟩ := hhere.kind own hown
  have hsame : kind.bind s₁.expansion = kind.bind s'.expansion :=
    Kind.bind_congr fun id hid => (hkept id (hlive hkey id hid)).symm
  refine ⟨_, hown', ?_⟩
  rw [substituteKind_eq_bind, heq, hsame]
  exact hs'.bind_expansion kind

/-- A quantifier whose body is checked. -/
theorem quantified_placed {here : Located Name} {result : Kind} {names : List String}
    {isOpen : Bool} {binders : Check (List (TypeVarNode Attributes))}
    {body : Check (TypeNode Attributes)} (hbindersAdds : Appends binders) (hbodyAdds : Appends body)
    {c : Checker} (hplaces : known.Places vars locals mark pending c.store)
    (hlive : c.store.Live result) (hheld : c.store.Held mark pending result)
    (hbinders : Ends binders { c with store := c.store.pushed .quantifiedType } fun bound c' =>
      Leads mark pending (c.store.pushed .quantifiedType) c'.store ∧
      bound.map TypeVarNode.name = names ∧
      (∀ var ∈ bound, ∃ kind, var.here.kindBy id = some kind ∧ c'.store.Live kind ∧
        c'.store.Flat mark pending kind) ∧
      ∀ key, c'.store.kindBound key =
        KindContext.bind (c.store.pushed .quantifiedType).kindBound bound key)
    (hbody : ∀ bound : List (TypeVarNode Attributes), bound.map TypeVarNode.name = names →
      (∀ var ∈ bound, (var.here.kindBy id).isSome = true) →
      Confirms (known.bind bound) (names ++ vars) (names ++ locals) mark isOpen body result) :
    Quietly (withScope .quantifiedType do
        let binders ← binders
        let body ← body
        substituteNode (.quantified (kinded here kind) binders body)) c fun node c' =>
      LeadsCalmly mark pending c.store c'.store ∧ node.Follows known c'.store ∧
        ∃ f, node.here.kindBy id = some (kind.bind f) := by
  have haddsLast : ∀ vars, Appends (do
      let body ← body
      substituteNode (.quantified (kinded here kind) vars body)) := fun vars =>
    hbodyAdds.bind fun _ => Appends.traverse (fun _ => Appends.lift _) _
  refine withScope_placed rfl (hbindersAdds.bind haddsLast) hplaces.placed ?_
  refine Quietly.bind hbindersAdds haddsLast (Quietly.of_ends (hbinders.mono ?_))
  rintro bound c₁ ⟨hleads, hnames, hkinds, hbound⟩
  have hplaces₁ := (hplaces.pushed .quantifiedType).bind hleads hnames hkinds hbound
  have hlive₁ : c₁.store.Live result := hleads.live fun id hid =>
    (opened_pushed c.store .quantifiedType).registered_iff.2 (.inr (hlive id hid))
  have hheld₁ : c₁.store.Held mark pending result :=
    Held.absorbed (s := c.store.pushed .quantifiedType) hheld hleads.absorbs hleads.placed
  have hsome : ∀ var ∈ bound, (var.here.kindBy id).isSome = true := by
    intro var hvar
    obtain ⟨kind, hkind, -⟩ := hkinds var hvar
    rw [hkind]
    rfl
  refine Quietly.bind hbodyAdds (fun _ => Appends.traverse (fun _ => Appends.lift _) _) ?_
  refine (hbody bound hnames hsome pending c₁ hplaces₁ hlive₁ hheld₁).mono ?_
  rintro node c₂ ⟨hleads₂, hfollows, -⟩
  refine Quietly.of_ends ((substituteNode_ends _ c₂).mono ?_)
  rintro node' _ ⟨rfl, hturned⟩
  refine ⟨hleads.trans hleads₂.toLeads, fun c₃ hleads₃ hkept => ⟨hleads₃, ?_, ?_⟩⟩
  · refine TypeNode.Follows.popped (fun key kind hkey use huse => ?_) hturned hplaces.live
      hleads₃.placed.tidy.sound hkept
    rw [TypeNode.usesOf] at huse
    split at huse
    · exact (List.not_mem_nil huse).elim
    · rename_i hfree
      refine hfollows key kind ?_ use huse
      rcases KindContext.bind_cases bound key with ⟨var, hvar, hname, -⟩ | ⟨-, hbind⟩
      · exact (hfree (List.mem_map.2 ⟨var, hvar, hname⟩)).elim
      · rw [hbind, hkey]
  · obtain ⟨own, hown, rfl⟩ := hturned.here.kind kind rfl
    exact ⟨_, by rw [hown, substituteKind_eq_bind]⟩

/-- Binders of unknown kinds around a proper type. -/
theorem uncovers_inferQuantified {here : Located Name} {binders : List (TypeVarNode Name)}
    {body : KindJudgement} (hadds : body.Adds)
    (hbody : ∀ bound : List (TypeVarNode Attributes),
      bound.map TypeVarNode.name = binders.map TypeVarNode.name →
      (∀ var ∈ bound, (var.here.kindBy id).isSome = true) →
      Confirms (known.bind bound) (binders.map TypeVarNode.name ++ vars)
        (binders.map TypeVarNode.name ++ locals) mark true (body.check .type) .type) :
    Uncovers known vars locals mark false false
      (KindJudgement.inferQuantified here binders body) := by
  intro pending c hplaces
  refine (quantified_placed (Appends.mapM fun var _ => (Appends.lift _).bind fun _ =>
    Appends.bindTypeVar _ _) (hadds.check _) hplaces (live_type _) (held_type _ _ _)
    (bound_mapM inferTypeVar TypeVarNode.name binders (fun var _ c' hleads => ?_) _
      (hplaces.placed.pushed _).leads.toLeads) hbody).mono ?_
  · exact inferTypeVar_bound var hleads.placed ⟨c.store.stack, _, hleads.inside (Nat.zero_le _)
      ⟨[], opened_pushed c.store _, fun _ hid => (List.not_mem_nil hid).elim⟩⟩
  · rintro node c' ⟨hleads, hfollows, f, hkind⟩
    rw [Kind.bind_type] at hkind
    refine ⟨[], .type, .proper hleads hfollows hkind, fun _ v hv => ?_, fun _ =>
        .inl Kind.ground_type⟩
    rw [Kind.bind_type] at hv
    cases hv

/-- Binders of the kinds of arguments around a type of the kind of the result. -/
theorem confirms_checkQuantified {here : Located Name} {binders : List (TypeVarNode Name)}
    {body : KindJudgement} {args : List Kind} {result : Kind} {isOpen : Bool} (hadds : body.Adds)
    (hlength : args.length = binders.length)
    (hbody : ∀ bound : List (TypeVarNode Attributes),
      bound.map TypeVarNode.name = binders.map TypeVarNode.name →
      (∀ var ∈ bound, (var.here.kindBy id).isSome = true) →
      Confirms (known.bind bound) (binders.map TypeVarNode.name ++ vars)
        (binders.map TypeVarNode.name ++ locals) mark true (body.check result) result) :
    Confirms known vars locals mark isOpen
      (KindJudgement.checkQuantified here binders body args result) (.higher args result) := by
  intro pending c hplaces hlive hheld
  obtain ⟨hargsLive, hresultLive⟩ := live_higher.1 hlive
  obtain ⟨hargsHeld, hresultHeld⟩ := held_higher.1 hheld
  have hnames : (binders.zip args).map (fun pair => pair.1.name) =
      binders.map TypeVarNode.name := by
    have hfirst : (binders.zip args).map Prod.fst = binders :=
      List.map_fst_zip (Nat.le_of_eq hlength.symm)
    conv_rhs => rw [← hfirst, List.map_map]
    rfl
  have hbinders := bound_mapM (fun pair : TypeVarNode Name × Kind => bindTypeVar pair.1 pair.2)
    (fun pair => pair.1.name) (binders.zip args) (fun pair hpair c' hleads => by
      have hmem := (List.of_mem_zip hpair).2
      refine bindTypeVar_bound pair.1 hleads.placed (hleads.live fun id hid => ?_) (.inr ?_)
      · exact (opened_pushed c.store .quantifiedType).registered_iff.2
          (.inr (hargsLive _ hmem id hid))
      · exact Held.absorbed (s := c.store.pushed .quantifiedType) (hargsHeld _ hmem) hleads.absorbs
          hleads.placed) { c with store := c.store.pushed .quantifiedType }
    (hplaces.placed.pushed .quantifiedType).leads.toLeads
  rw [hnames] at hbinders
  refine (quantified_placed (Appends.mapM fun _ _ => Appends.bindTypeVar _ _) (hadds.check _)
    hplaces hresultLive hresultHeld hbinders hbody).mono ?_
  · rintro node c' ⟨hleads, hfollows, -⟩
    refine ⟨hleads, hfollows, fun _ v hv => ?_⟩
    rw [Kind.bind_higher] at hv
    cases hv

theorem uncovers_quantified {here : Located Name} {binders : List (TypeVarNode Name)}
    {body : KindJudgement} (hadds : body.Adds)
    (hbody : ∀ bound : List (TypeVarNode Attributes),
      bound.map TypeVarNode.name = binders.map TypeVarNode.name →
      (∀ var ∈ bound, (var.here.kindBy id).isSome = true) → ∀ expected,
      Confirms (known.bind bound) (binders.map TypeVarNode.name ++ vars)
        (binders.map TypeVarNode.name ++ locals) mark true (body.check expected) expected) :
    (KindJudgement.quantified here binders body).Uncovers known vars locals mark false false := by
  have hinfers : Uncovers known vars locals mark false false
      (KindJudgement.inferQuantified here binders body) :=
    uncovers_inferQuantified hadds fun bound hnames hkinds => hbody bound hnames hkinds _
  have haddsInfer : Appends (KindJudgement.inferQuantified here binders body) :=
    KindJudgement.appends_inferQuantified hadds
  have hsubsume := hinfers.subsume haddsInfer here.range
  refine ⟨hinfers, Confirms.substituted (fun expected => ?_) fun expected => ?_⟩
  · split
    · split
      · exact KindJudgement.appends_checkQuantified hadds _ _
      · exact KindJudgement.appends_subsume _ haddsInfer _
    · exact KindJudgement.appends_subsume _ haddsInfer _
  · cases expected with
    | higher args result =>
      dsimp only
      split
      · exact confirms_checkQuantified hadds ‹_› fun bound hnames hkinds =>
            hbody bound hnames hkinds _
      · exact hsubsume _
    | type => exact hsubsume _
    | unsolved id => exact hsubsume _

mutual
/-- The kinds of every plain written type are found. -/
theorem TypeNode.judge_uncovers : ∀ (node : TypeNode Name) {known : KindContext}
    {vars locals : List String}, node.NamesWithin (fun key => (known key).isSome = true) →
    node.isPlain vars locals = true → node.judge.Uncovers known vars locals mark
      (node.isOpen vars locals) (node.headIn vars)
  | .quantified here binders body, known, vars, locals, hnames, hplain => by
    rw [judge]
    refine uncovers_quantified body.judge_adds fun bound hbound hkinds expected => ?_
    have hbody : body.NamesWithin fun key => (known.bind bound key).isSome = true := by
      refine TypeNode.NamesWithin.mono (fun key hkey => ?_) hnames
      rcases KindContext.bind_cases bound key with ⟨var, hvar, -, hbind⟩ | ⟨hfree, hbind⟩
      · rw [hbind, ← Located.kindBy_id]
        exact hkinds var hvar
      · rw [hbind]
        refine hkey.resolve_left fun hin => ?_
        rw [← hbound, List.mem_map] at hin
        obtain ⟨var, hvar, hname⟩ := hin
        exact hfree var hvar hname
    exact ((body.judge_uncovers hbody hplain).checks expected).mono fun htrue =>
      Bool.noConfusion htrue
  | .function here args result, known, vars, locals, hnames, hplain => by
    rw [judge]
    rw [isPlain, Bool.and_eq_true] at hplain
    refine .ofInference (uncovers_function (fun arg harg =>
        ?_) result.judge_adds fun expected => ?_)
      (KindJudgement.Adds.function (judgeList_adds args) result.judge_adds).infer
    · obtain ⟨node, -, hnode⟩ := judgeList_uncovers args hnames.1 hplain.1 arg harg
      exact ⟨judgeList_adds args arg harg, fun expected =>
        (hnode.checks expected).mono fun htrue => Bool.noConfusion htrue⟩
    · exact ((result.judge_uncovers hnames.2 hplain.2).checks expected).mono fun htrue =>
        Bool.noConfusion htrue
  | .apply here head args, known, vars, locals, hnames, hplain => by
    rw [judge]
    rw [isPlain, Bool.and_eq_true, Bool.and_eq_true] at hplain
    obtain ⟨⟨hheadPlain, hargsPlain⟩, hclosed⟩ := hplain
    refine .ofInference (uncovers_apply head.judge_adds
      (head.judge_uncovers hnames.1 hheadPlain).infers fun arg harg => ?_)
      (KindJudgement.Adds.apply head.judge_adds (judgeList_adds args)).infer
    obtain ⟨node, hmem, hnode⟩ := judgeList_uncovers args hnames.2 hargsPlain arg harg
    refine ⟨judgeList_adds args arg harg, fun expected =>
      (hnode.checks expected).mono fun hstems => ?_⟩
    have hhead : head.headIn vars = true := (Bool.not_eq_false' _).mp hstems
    rw [hhead, Bool.not_true, Bool.false_or, List.all_eq_true] at hclosed
    exact (Bool.not_eq_true' _).mp (hclosed node hmem)
  | .reference here id, known, vars, locals, hnames, _ => by
    rw [judge]
    obtain ⟨kind, hkind⟩ := Option.isSome_iff_exists.1 hnames.2
    exact .ofInference (uncovers_reference id hnames.1 hkind)
        (KindJudgement.Adds.reference id).infer
  | .var node, known, vars, locals, hnames, _ => by
    rw [judge]
    obtain ⟨kind, hkind⟩ := Option.isSome_iff_exists.1 hnames.2
    exact .ofInference (uncovers_var hnames.1 hkind) (KindJudgement.Adds.var node).infer
theorem TypeNode.judgeList_uncovers : ∀ (nodes : List (TypeNode Name)) {known : KindContext}
    {vars locals : List String}, TypeNode.AllNamesWithin (fun key =>
        (known key).isSome = true) nodes →
    TypeNode.arePlain vars locals nodes = true → ∀ judgement ∈ TypeNode.judgeList nodes,
      ∃ node ∈ nodes, judgement.Uncovers known vars locals mark (node.isOpen vars locals)
        (node.headIn vars)
  | [], _, _, _, _, _ => by
    rw [judgeList]
    intro _ h
    cases h
  | node :: rest, _, _, _, hnames, hplain => by
    rw [judgeList]
    rw [arePlain, Bool.and_eq_true] at hplain
    intro judgement h
    rcases List.mem_cons.1 h with rfl | h
    · exact ⟨node, List.mem_cons_self, node.judge_uncovers hnames.1 hplain.1⟩
    · obtain ⟨other, hother, huncovers⟩ := judgeList_uncovers rest hnames.2 hplain.2 judgement h
      exact ⟨other, List.mem_cons_of_mem _ hother, huncovers⟩
end

end PolyFront
