import PolyFront.Proofs.Dependencies.References
import PolyFront.Proofs.Naming.Readings

/-!
# Every mention is accounted for

Along the definition of the resolver, the reading of each construct is put together from those of
its parts.  A frame that is pushed around a construct ends the visibility of the binders in it, and
what is bound in it is bound by the construct's own binders.
-/

namespace PolyFront

open Run Resolver

namespace Resolve

/-- From where a part is resolved, the run goes on to where a good reading is resolved. -/
def Reads {α : Type} (names : List (String × Name)) (declares : ConstructorName → String → Prop)
    (acc : Reading) (run : Resolve α) (good : α → Reading → Prop) : Prop :=
  ∀ s t, Progress names declares s t acc →
    Ends run t fun a u => ∃ r, good a r ∧ Progress names declares s u r

/-- The run resolves what it gives. -/
def ReadsAs {α : Type} (names : List (String × Name)) (declares : ConstructorName → String → Prop)
    (run : Resolve α) (reading : α → Reading) : Prop :=
  Reads names declares .empty run fun a r => r = reading a

/-- The run reports at most what is not about unresolved names, and its result is good. -/
def Passes {α : Type} (names : List (String × Name)) (declares : ConstructorName → String → Prop)
    (run : Resolve α) (good : α → Prop) : Prop :=
  Reads names declares .empty run fun a r => r = .empty ∧ good a

section Rules

variable {α β : Type} {names : List (String × Name)} {declares : ConstructorName → String → Prop}
  {acc : Reading} {s : Resolver}

theorem Reads.pure {good : α → Reading → Prop} {a : α} (h : good a acc) :
    Reads names declares acc (Pure.pure a) good :=
  fun _ _ hacc => Ends.pure ⟨acc, h, hacc⟩

theorem Reads.ofEnds {good : α → Reading → Prop} {run : Resolve α}
    (h : ∀ s, Ends run s fun a t => ∃ r, good a r ∧ Progress names declares s t r) :
    Reads names declares .empty run good := by
  intro s t hst
  refine (h t).mono ?_
  rintro a u ⟨r, hgood, htu⟩
  exact ⟨r, hgood, hst.append htu⟩

theorem Reads.ends {good : α → Reading → Prop} {run : Resolve α}
    (h : Reads names declares .empty run good) (s : Resolver) :
    Ends run s fun a t => ∃ r, good a r ∧ Progress names declares s t r :=
  h s s (Still.progress ⟨rfl, rfl, rfl, rfl⟩)

theorem Reads.bind {mid : α → Reading → Prop} {good : β → Reading → Prop} {run : Resolve α}
    {next : α → Resolve β} (hrun : Reads names declares .empty run mid)
    (hnext : ∀ a r, mid a r → Reads names declares (acc ++ r) (next a) good) :
    Reads names declares acc (run >>= next) good := by
  intro s t hst
  refine Ends.bind ((hrun.ends t).mono ?_)
  rintro a u ⟨r, hmid, htu⟩
  exact hnext a r hmid s u (hst.append htu)

theorem Reads.andThen {reading : α → Reading} {good : β → Reading → Prop} {run : Resolve α}
    {next : α → Resolve β} (hrun : ReadsAs names declares run reading)
    (hnext : ∀ a, Reads names declares (acc ++ reading a) (next a) good) :
    Reads names declares acc (run >>= next) good := by
  refine Reads.bind hrun ?_
  rintro a _ rfl
  exact hnext a

theorem Reads.after {fine : α → Prop} {good : β → Reading → Prop} {run : Resolve α}
    {next : α → Resolve β} (hrun : Passes names declares run fine)
    (hnext : ∀ a, fine a → Reads names declares acc (next a) good) :
    Reads names declares acc (run >>= next) good := by
  refine Reads.bind hrun ?_
  rintro a _ ⟨rfl, ha⟩
  rw [Reading.append_empty]
  exact hnext a ha

theorem Passes.pure {good : α → Prop} {a : α} (h : good a) :
    Passes names declares (Pure.pure a) good :=
  Reads.pure ⟨rfl, h⟩

theorem Passes.ofStill {good : α → Prop} {run : Resolve α}
    (h : ∀ s, Ends run s fun a t => Still s t ∧ good a) : Passes names declares run good :=
  Reads.ofEnds fun s => (h s).mono fun _ _ ⟨hstill, ha⟩ => ⟨.empty, ⟨rfl, ha⟩, hstill.progress⟩

theorem Passes.foldlM {f : β → α → Resolve β} {good : β → Prop} {items : List α} {start : β}
    (hstart : good start)
    (h : ∀ b, good b → ∀ item ∈ items, Passes names declares (f b item) good) :
    Passes names declares (items.foldlM f start) good := by
  induction items generalizing start with
  | nil => exact Passes.pure hstart
  | cons item rest ih =>
    rw [List.foldlM_cons]
    refine Reads.after (h start hstart item List.mem_cons_self) fun b hb => ?_
    exact ih hb fun b' hb' other hother => h b' hb' other (List.mem_cons_of_mem _ hother)

theorem ReadsAs.mapM {f : α → Resolve β} {reading : β → Reading} {items : List α}
    (h : ∀ item ∈ items, ReadsAs names declares (f item) reading) :
    ReadsAs names declares (items.mapM f) (Reading.join reading) := by
  induction items with
  | nil => exact Reads.pure rfl
  | cons item rest ih =>
    rw [List.mapM_cons]
    refine Reads.andThen (h item List.mem_cons_self) fun b => ?_
    refine Reads.andThen (ih fun other hother => h other (List.mem_cons_of_mem _ hother)) ?_
    exact fun bs => Reads.pure rfl

/-- A run that faults does not end. -/
theorem ends_throw {σ : Type} {s : σ} {fault : Fault} {post : α → σ → Prop} :
    Ends (throw fault : Run σ α) s post := by
  intro _ _ hrun
  cases hrun

theorem pop_ends (expected : ScopeTag) (stack : Stack (Located Name)) :
    Ends (Stack.pop expected) stack fun _ t => t = { stack with frames := stack.frames.tail } := by
  refine Ends.bind (Ends.get ?_)
  split
  · rename_i hframes
    refine Ends.bind (Ends.set ?_)
    split
    · exact Ends.pure (by rw [hframes]; rfl)
    · exact ends_throw
  · exact ends_throw

/-- A run inside a frame ends where its body ends, without the innermost frame. -/
theorem withFrame_ends_tail {frame : Frame (Located Name)} {body : Resolve α}
    {post : α → Resolver → Prop}
    (hbody : Ends body { s with stack := s.stack.push frame } post) :
    Ends (withFrame frame body) s fun a t => ∃ u, post a u ∧
      t = { u with stack := { u.stack with frames := u.stack.frames.tail } } := by
  refine Ends.bind (Ends.modify (Ends.bind (hbody.mono fun a u hu => ?_)))
  refine Ends.bind (Ends.within ((pop_ends _ _).mono ?_))
  rintro _ _ rfl
  exact Ends.pure ⟨u, hu, rfl⟩

/-- A frame around a construct of which some binders are visible outside. -/
theorem Reads.withFrame {good : α → Reading → Prop} {frame : Frame (Located Name)}
    {body : Resolve α} (hframe : frame.OffersTypes)
    (hbody : Reads names declares .empty body good) :
    Reads names declares .empty (withFrame frame body) good := by
  refine Reads.ofEnds fun s => (withFrame_ends_tail (hbody.ends _)).mono ?_
  rintro a _ ⟨u, ⟨r, hgood, hprogress⟩, rfl⟩
  exact ⟨r, hgood, hprogress.popped hframe⟩

/-- A run that is confined to what it pushes leaves the stack as it was. -/
theorem stack_of_confined {run : Resolve α} {good : α → Prop}
    (h : ∀ lower, Confined lower [] run good) (s : Resolver) :
    Ends run s fun _ t => t.stack = s.stack := by
  obtain ⟨a, t, reports, -, ⟨upper, hframes, hupper⟩, hbuiltIns, -, hrun⟩ :=
    h s.stack.frames s ⟨[], rfl, rfl⟩
  obtain rfl := List.map_eq_nil_iff.1 hupper
  intro a' t' hrun'
  have hend := (hrun s.log s.topLevel).symm.trans hrun'
  cases hend
  show Stack.mk t.stack.frames t.stack.builtIns = s.stack
  rw [hframes, hbuiltIns]
  rfl

/-- A construct whose binders are visible only inside. -/
theorem ReadsAs.withScope {reading : α → Reading} {kind : ScopeKind} {body : Resolve α}
    (hbody : Reads names declares .empty body fun a r => r.enclosed = reading a)
    (hconfined : ∀ lower, Confined lower [] (withScope kind body) fun _ => True) :
    ReadsAs names declares (withScope kind body) reading := by
  have hempty : (Frame.empty kind : Frame (Located Name)).OffersTypes :=
    fun _ _ => Frame.offers_empty kind
  refine Reads.ofEnds fun s => ?_
  have hstack := stack_of_confined hconfined s
  refine (Ends.and (withFrame_ends_tail (hbody.ends _)) hstack).mono ?_
  rintro a _ ⟨⟨u, ⟨r, hreading, hprogress⟩, rfl⟩, hsame⟩
  exact ⟨_, rfl, hreading ▸ hprogress.enclosed hempty hsame⟩

end Rules

section Steps

variable {names : List (String × Name)} {declares : ConstructorName → String → Prop} {s : Resolver}

/-! ## The operations on the state -/

theorem reportDuplicate_aside (what : String) (proposed existing : Range) :
    Ends (reportDuplicate what proposed existing) s fun _ t =>
      ∃ log, t = { s with log := log } ∧ s.log.Aside log :=
  Ends.bind (Ends.get (Ends.modify ⟨_, rfl, .report
    (isUnresolved_eq_false "Duplicate definition of " ⟨_, rfl⟩ (by decide))⟩))

/-- Something is put into a frame, unless the place is taken. -/
theorem define_aside (frame frame' : Frame (Located Name)) (taken : Option (Located Name))
    (what : String) (range : Range) :
    Ends (match taken with
      | some existing => do
        reportDuplicate what range existing.range
        pure frame
      | none => pure frame') s fun result t =>
        (∃ log, t = { s with log := log } ∧ s.log.Aside log) ∧
          (result = frame ∨ result = frame') := by
  split
  · refine Ends.bind ((reportDuplicate_aside _ _ _).mono fun _ t ht => ?_)
    exact Ends.pure ⟨ht, .inl rfl⟩
  · exact Ends.pure ⟨⟨s.log, rfl, .refl _⟩, .inr rfl⟩

theorem defineType_passes {frame : Frame (Located Name)} (hframe : frame.OffersTypes)
    (name : String) {here : Located Name} (hhere : here.info ≠ .nameless) :
    Passes names declares (defineType frame name here) Frame.OffersTypes := by
  refine Reads.ofEnds fun s => (define_aside _ _ _ _ _).mono ?_
  rintro result _ ⟨⟨log, rfl, haside⟩, rfl | rfl⟩
  · exact ⟨.empty, ⟨rfl, hframe⟩, progress_aside haside⟩
  · refine ⟨.empty, ⟨rfl, fun names declares => ?_⟩, progress_aside haside⟩
    exact (hframe names declares).put (.type name) hhere

theorem frameOfBinders_passes (kind : ScopeKind) (binders : List (TypeVarNode Unit)) :
    Passes names declares (frameOfBinders kind binders) Frame.OffersTypes :=
  Passes.foldlM (fun _ _ => Frame.offers_empty kind) fun _ hframe var _ =>
    defineType_passes hframe var.name nofun

theorem addEdge_passes (source target : DeclarationName) :
    Passes names declares (addEdge source target) fun _ => True :=
  Passes.ofStill fun _ => Ends.modify ⟨⟨rfl, rfl, rfl, rfl⟩, True.intro⟩

theorem recordReference_still (name : Name) (s : Resolver) :
    Ends (recordReference name) s fun _ t => Still s t := by
  have hsame : Still s s := ⟨rfl, rfl, rfl, rfl⟩
  unfold recordReference
  split
  · exact Ends.pure hsame
  · refine Ends.bind (Ends.get ?_)
    dsimp only
    split
    · split
      · exact Ends.modify ⟨rfl, rfl, rfl, rfl⟩
      · exact Ends.pure hsame
    · exact Ends.pure hsame

theorem currentNamespace_passes : Passes names declares currentNamespace fun _ => True := by
  refine Passes.ofStill fun s => Ends.bind (Ends.get ?_)
  split
  · exact Ends.pure ⟨⟨rfl, rfl, rfl, rfl⟩, True.intro⟩
  · exact ends_throw

/-- A binder takes the next number, whether its text was taken or not. -/
theorem bindLocal_reads (target : ScopeTag) (name : String) (range : Range) :
    ReadsAs names declares (bindLocal target name range) fun here =>
      .flat [⟨here, name⟩] [] := by
  refine Reads.ofEnds fun s => Ends.bind (Ends.get (Ends.bind (Ends.set ?_)))
  split
  · rename_i frame hframe
    refine Ends.bind ((define_aside _ _ _ _ _).mono ?_)
    rintro frame' _ ⟨⟨log, rfl, haside⟩, hframe'⟩
    refine Ends.bind (Ends.modify (Ends.pure ⟨_, rfl, ?_⟩))
    refine ⟨rfl, haside.longer, rfl, ⟨rfl, True.intro⟩, fun around hown hs => ?_,
      fun _ _ _ => .nil haside.same⟩
    have hbinder : (name, Name.bound name s.nextLocal) ∈ names ++ around.map Binder.entry :=
      List.mem_append_right _ (List.mem_map.2 ⟨_, hown List.mem_cons_self, rfl⟩)
    have hold := hs.frames frame (List.mem_of_find?_eq_some hframe)
    refine ⟨fun other hother => ?_, hs.builtIns⟩
    rcases mem_updateFirst hother with hmem | ⟨_, -, rfl⟩
    · exact hs.frames other hmem
    · rcases hframe' with rfl | rfl
      · exact hold
      · exact hold.put (.value name) ⟨hbinder, Name.noConfusion⟩
  · exact ends_throw

/-! ## Look-ups -/

/-- A mention for which nothing is found is reported. -/
theorem reportUndefined_misses {m : Mention} (hname : m.here.info = .nameless) :
    Ends (reportUndefined m.missing m.here.range m.text) s fun _ t =>
      Progress names declares s t (.flat [] [m]) :=
  Ends.modify (progress_missed hname)

theorem resolveValue_reads (range : Range) (id : QualifiedId) :
    ReadsAs names declares (resolveValue range id) fun here =>
      .flat [] [.value ⟨here, id⟩] := by
  refine Reads.ofEnds fun s => Ends.bind (Ends.get ?_)
  split
  · rename_i found hfound
    refine Ends.bind ((recordReference_still found.info s).mono fun _ t ht => ?_)
    refine Ends.pure ⟨_, rfl, ht.found (fun around hs => ?_) True.intro⟩
    obtain ⟨frame, hframe, hget⟩ := hs.lookup hfound
    obtain ⟨hknown, hnamed⟩ := hframe (.value _) _ hget
    exact ⟨hnamed, .inr hknown⟩
  · exact Ends.bind ((reportUndefined_misses (m := .value ⟨⟨range, .nameless⟩, id⟩) rfl).mono
      fun _ _ hmissed => Ends.pure ⟨_, rfl, hmissed⟩)

theorem resolveType_reads (range : Range) (id : QualifiedId) :
    ReadsAs names declares (resolveType range id) fun here => .flat [] [.type here id] := by
  refine Reads.ofEnds fun s => Ends.bind (Ends.get ?_)
  split
  · rename_i found hfound
    refine Ends.bind ((recordReference_still found.info s).mono fun _ t ht => ?_)
    refine Ends.pure ⟨_, rfl, ht.found (fun around hs => ?_) True.intro⟩
    obtain ⟨frame, hframe, hget⟩ := hs.lookup hfound
    exact ⟨hframe (.type _) found hget, True.intro⟩
  · exact Ends.bind ((reportUndefined_misses (m := .type ⟨range, .nameless⟩ id) rfl).mono
      fun _ _ hmissed => Ends.pure ⟨_, rfl, hmissed⟩)

theorem typeVar_reads (var : TypeVarNode Unit) :
    ReadsAs names declares (typeVar var) fun var => .flat [] [.typeVar var] := by
  refine Reads.ofEnds fun s => Ends.bind (Ends.get ?_)
  split
  · rename_i found hfound
    have hsame : Still s s := ⟨rfl, rfl, rfl, rfl⟩
    refine Ends.pure ⟨_, rfl, hsame.found (fun around hs => ?_) True.intro⟩
    obtain ⟨frame, hframe, hget⟩ := hs.lookup hfound
    exact ⟨hframe (.type _) found hget, True.intro⟩
  · let missed : TypeVarNode Name := ⟨⟨var.here.range, .nameless⟩, var.quantifier, var.name⟩
    exact Ends.bind ((reportUndefined_misses (m := .typeVar missed) rfl).mono
      fun _ _ hmissed => Ends.pure ⟨_, rfl, hmissed⟩)

/-- The parts of a list are read off one after the other. -/
theorem ReadsAs.mapM_flat {α β : Type} {f : α → Resolve β} {binders : β → List Binder}
    {mentions : β → List Mention} {items : List α}
    (h : ∀ item, ReadsAs names declares (f item) fun b => .flat (binders b) (mentions b)) :
    ReadsAs names declares (items.mapM f) fun bs =>
      .flat (bs.flatMap binders) (bs.flatMap mentions) := by
  simp only [← Reading.join_flat]
  exact ReadsAs.mapM fun item _ => h item

theorem ReadsAs.mapM_mentions {α β : Type} {f : α → Resolve β} {mentions : β → List Mention}
    {items : List α} (h : ∀ item, ReadsAs names declares (f item) fun b => .flat [] (mentions b)) :
    ReadsAs names declares (items.mapM f) fun bs => .flat [] (bs.flatMap mentions) := by
  have hnone (bs : List β) : bs.flatMap (fun _ => ([] : List Binder)) = [] :=
    List.flatMap_eq_nil_iff.2 fun _ _ => rfl
  have hall : ReadsAs names declares (items.mapM f) _ := ReadsAs.mapM_flat h
  simpa only [hnone] using hall

theorem typeVars_reads (vars : List (TypeVarNode Unit)) :
    ReadsAs names declares (vars.mapM typeVar) fun vars => .flat [] (vars.map .typeVar) := by
  simp only [List.map_eq_flatMap]
  exact ReadsAs.mapM_mentions typeVar_reads

theorem reference_reads (node : Reference Unit) :
    ReadsAs names declares (reference node) fun node => .flat [] [.value node] :=
  Reads.andThen (resolveValue_reads _ _) fun _ => Reads.pure rfl

/-! ## Types -/

mutual
theorem typeNode_reads : ∀ node : TypeNode Unit,
    ReadsAs names declares (typeNode node) fun node => .flat [] node.mentions
  | .quantified here binders body => by
    refine Reads.after (frameOfBinders_passes _ binders) fun frame hframe => ?_
    refine Reads.withFrame hframe (Reads.andThen (typeVars_reads binders) fun binders => ?_)
    exact Reads.andThen (typeNode_reads body) fun body => Reads.pure (Reading.flat_append _ _ _ _)
  | .function here args result =>
    Reads.andThen (typeNodes_reads args) fun _ =>
      Reads.andThen (typeNode_reads result) fun _ => Reads.pure (Reading.flat_append _ _ _ _)
  | .apply here head args =>
    Reads.andThen (typeNode_reads head) fun _ =>
      Reads.andThen (typeNodes_reads args) fun _ => Reads.pure (Reading.flat_append _ _ _ _)
  | .reference here id => Reads.andThen (resolveType_reads here.range id) fun _ => Reads.pure rfl
  | .var node => Reads.andThen (typeVar_reads node) fun _ => Reads.pure rfl
theorem typeNodes_reads : ∀ nodes : List (TypeNode Unit),
    ReadsAs names declares (typeNodes nodes) fun nodes => .flat [] (TypeNode.mentionsList nodes)
  | [] => Reads.pure rfl
  | node :: rest =>
    Reads.andThen (typeNode_reads node) fun _ =>
      Reads.andThen (typeNodes_reads rest) fun _ => Reads.pure (Reading.flat_append _ _ _ _)
end

theorem ascription_reads (node : Option (TypeNode Unit)) :
    ReadsAs names declares (ascription node) fun node =>
      .flat [] (TypeNode.mentionsOption node) := by
  cases node with
  | none => exact Reads.pure rfl
  | some node => exact Reads.andThen (typeNode_reads node) fun _ => Reads.pure rfl

theorem param_reads (node : Param Unit) :
    ReadsAs names declares (param node) fun node => .flat [node.binder] node.mentions :=
  Reads.andThen (bindLocal_reads _ _ _) fun _ =>
    Reads.andThen (ascription_reads _) fun _ => Reads.pure (Reading.flat_append _ _ _ _)

/-! ## Patterns -/

/-- Fields are matched inside the pattern of their constructor.  When nothing is reported they
are declared by it. -/
structure FieldsRead (names : List (String × Name)) (declares : ConstructorName → String → Prop)
    (s t : Resolver) (fields : List (FieldPattern Name)) : Prop where
  progress : Progress names declares s t
    (.flat (FieldPattern.bindersList fields) (FieldPattern.mentionsList fields))
  shape : t.stack.shape = s.stack.shape
  declared : ∀ around, FieldPattern.bindersList fields ⊆ around →
    s.stack.Offers (names ++ around.map Binder.entry) declares → t.log.items = s.log.items →
      ∀ c, s.stack.enclosingConstructorPattern? = some (some c) →
        ∀ field ∈ fields, declares c field.field

theorem FieldsRead.cons {s t u : Resolver} {field : FieldPattern Name}
    {rest : List (FieldPattern Name)} (h : FieldsRead names declares s t [field])
    (h' : FieldsRead names declares t u rest) : FieldsRead names declares s u (field :: rest) := by
  obtain ⟨hprogress, hshape, hdeclared⟩ := h
  simp only [FieldPattern.bindersList, FieldPattern.mentionsList, List.append_nil]
    at hprogress hdeclared
  refine ⟨Reading.flat_append _ _ _ _ ▸ hprogress.append h'.progress,
    h'.shape.trans hshape, fun around hown hs hsilent c hc => ?_⟩
  obtain ⟨hown, hown'⟩ := List.append_subset.1 hown
  obtain ⟨hsilent, hsilent'⟩ := silent_between hprogress.longer h'.progress.longer hsilent
  have hc' : t.stack.enclosingConstructorPattern? = some (some c) :=
    (Stack.enclosingConstructorPattern?_congr hshape).trans hc
  have hrest := h'.declared around hown' (hprogress.offers around hown hs) hsilent' c hc'
  have hfirst := hdeclared around hown hs hsilent c hc
  exact List.forall_mem_cons.2 ⟨hfirst field List.mem_cons_self, hrest⟩

/-- A field that is not reported is found. -/
theorem checkField_aside (range : Range) (field : String) :
    Ends (checkField range field) s fun _ t =>
      (∃ log, t = { s with log := log } ∧ s.log.Aside log) ∧
        (t.log.items = s.log.items → ∀ c, s.stack.enclosingConstructorPattern? = some (some c) →
          (s.stack.field? c field).isSome) := by
  have hsame : ∃ log, s = { s with log := log } ∧ s.log.Aside log := ⟨s.log, rfl, .refl _⟩
  refine Ends.bind (Ends.get ?_)
  dsimp only
  split
  · rename_i c hc
    split
    · refine Ends.modify ⟨⟨_, rfl, .report ?_⟩, fun hsilent => ?_⟩
      · exact isUnresolved_eq_false "Reference to unknown field '"
          ⟨_, by simp only [String.append_assoc]; rfl⟩ (by decide)
      · simp [Log.reportError] at hsilent
    · rename_i hfound
      refine Ends.pure ⟨hsame, fun _ c' hc' => ?_⟩
      obtain rfl : c = c' := by simpa using hc.symm.trans hc'
      simpa [Option.isSome_iff_ne_none] using hfound
  · rename_i hnone
    exact Ends.pure ⟨hsame, fun _ c hc => (hnone c hc).elim⟩

mutual
theorem pattern_reads : ∀ node : Pattern Unit,
    ReadsAs names declares (pattern node) fun node => .flat node.binders node.mentions
  | .alias here name inner =>
    Reads.andThen (bindLocal_reads _ name here.range) fun _ =>
      Reads.andThen (pattern_reads inner) fun _ => Reads.pure (Reading.flat_append _ _ _ _)
  | .id here name => Reads.andThen (bindLocal_reads _ name here.range) fun _ => Reads.pure rfl
  | .literal here value => Reads.pure rfl
  | .constructor here id fields => by
    refine Reads.ofEnds fun s => Ends.bind (Ends.get ?_)
    have hrest (name : Name) (known : Option ConstructorName)
        (hknown : ∀ c, name = .constructor c → known = some c) {t : Resolver}
        (ht : Progress names declares s t (.flat [] [.constructor ⟨here.range, name⟩ id []])) :
        Ends (do
          let fields ← withScope (.constructorPattern known) (fieldPatterns fields)
          recordReference name
          pure (Pattern.constructor ⟨here.range, name⟩ id fields)) t fun node u =>
            ∃ r, r = .flat node.binders node.mentions ∧ Progress names declares s u r := by
      refine Ends.bind ((withFrame_ends_tail (fieldPatterns_reads fields _)).mono ?_)
      rintro resolved _ ⟨u, hfields, rfl⟩
      refine Ends.bind ((recordReference_still name _).mono fun _ v hstill => ?_)
      refine Ends.pure ⟨_, rfl, ?_⟩
      have hempty : (Frame.empty (.constructorPattern known)).OffersTypes :=
        fun _ _ => Frame.offers_empty _
      have hinside := hfields.progress.popped hempty
      have hall := (ht.append hinside).append hstill.progress
      rw [Reading.append_empty, Reading.flat_append] at hall
      refine hall.withFields fun around hown hs hsilent c hc field hmem => ?_
      have hquiet := silent_between ht.longer hinside.longer (hstill.log ▸ hsilent)
      have hpushed := (ht.offers around (List.nil_subset _) hs).push (hempty _ _)
      exact hfields.declared around hown hpushed hquiet.2 c (congrArg some (hknown c hc)) field hmem
    dsimp only
    cases hvalue : s.stack.value? id.canonical with
    | none =>
      exact Ends.bind ((reportUndefined_misses
        (m := .constructor ⟨here.range, .nameless⟩ id []) rfl).mono
          fun _ _ hmissed => hrest .nameless _ nofun hmissed)
    | some found =>
      have hsame : Still s s := ⟨rfl, rfl, rfl, rfl⟩
      refine hrest found.info _ (fun c hc => ?_) (hsame.found (fun around hs => ?_) nofun)
      · simp only [Option.map_some, Option.getD_some, hc]
      · obtain ⟨frame, hframe, hget⟩ := hs.lookup hvalue
        obtain ⟨hknown, hnamed⟩ := hframe (.value _) _ hget
        exact ⟨hnamed, .inr hknown⟩
theorem fieldPattern_reads : ∀ (node : FieldPattern Unit) (s : Resolver),
    Ends (fieldPattern node) s fun field t => FieldsRead names declares s t [field]
  | ⟨here, field, inner⟩, s => by
    have hshape : Ends (fieldPattern ⟨here, field, inner⟩) s fun _ t =>
        t.stack.shape = s.stack.shape :=
      (fieldPattern_visits _ [] _ s rfl nofun).mono fun _ _ h => h.1
    have hfield : Ends (fieldPattern ⟨here, field, inner⟩) s fun node t =>
        t.stack.shape = s.stack.shape → FieldsRead names declares s t [node] := by
      refine Ends.bind ((checkField_aside here.range field).mono ?_)
      rintro _ _ ⟨⟨log, rfl, haside⟩, hfound⟩
      refine ((optionalPattern_reads here field inner).ends _).mono ?_
      rintro node t ⟨_, ⟨rfl, rfl⟩, hprogress⟩ hshape
      have hall := (progress_aside haside).append hprogress
      refine ⟨?_, hshape, fun around hown hs hsilent c hc => ?_⟩
      · simpa only [FieldPattern.bindersList, FieldPattern.mentionsList, List.append_nil,
          Reading.empty_append] using hall
      · have hquiet := silent_between haside.longer hprogress.longer hsilent
        obtain ⟨here', hhere'⟩ := Option.isSome_iff_exists.1 (hfound hquiet.1 c hc)
        obtain ⟨frame, hframe, hget⟩ := hs.lookup hhere'
        exact List.forall_mem_singleton.2 (hframe (.field c node.field) here' hget)
    exact (hshape.and hfield).mono fun _ _ ⟨h, h'⟩ => h' h
theorem optionalPattern_reads (here : Located Unit) (field : String) :
    ∀ inner : Option (Pattern Unit),
      Reads names declares .empty (optionalPattern here field inner) fun node r =>
        r = .flat node.binders node.mentions ∧ node.field = field
  | none =>
    Reads.andThen (bindLocal_reads _ field here.range) fun _ => Reads.pure ⟨rfl, rfl⟩
  | some inner => Reads.andThen (pattern_reads inner) fun _ => Reads.pure ⟨rfl, rfl⟩
theorem fieldPatterns_reads : ∀ (nodes : List (FieldPattern Unit)) (s : Resolver),
    Ends (fieldPatterns nodes) s fun fields t => FieldsRead names declares s t fields
  | [], s => by
    have hsame : Still s s := ⟨rfl, rfl, rfl, rfl⟩
    exact Ends.pure ⟨hsame.progress, rfl, fun _ _ _ _ _ _ => List.forall_mem_nil _⟩
  | node :: rest, s =>
    Ends.bind ((fieldPattern_reads node s).mono fun _ t hfirst =>
      Ends.bind ((fieldPatterns_reads rest t).mono fun _ _ hrest => Ends.pure (hfirst.cons hrest)))
end

theorem params_reads (nodes : List (Param Unit)) :
    ReadsAs names declares (nodes.mapM param) fun nodes =>
      .flat (nodes.map Param.binder) (nodes.flatMap Param.mentions) := by
  simp only [List.map_eq_flatMap]
  exact ReadsAs.mapM_flat param_reads

/-! ## Expressions -/

/-- The binders of an expression are visible nowhere else. -/
def exprReading (node : Expr Name) : Reading :=
  ⟨[], node.binders, fun around => node.mentions around⟩

def optionalExprReading (node : Option (Expr Name)) : Reading :=
  ⟨[], Expr.bindersOption node, fun around => Expr.mentionsOption around node⟩

def exprsReading (nodes : List (Expr Name)) : Reading :=
  ⟨[], Expr.bindersList nodes, fun around => Expr.mentionsList around nodes⟩

def bindingReading (node : Binding Name) : Reading :=
  ⟨[node.binder], node.binders, fun around => node.mentions around⟩

def bindingsReading (nodes : List (Binding Name)) : Reading :=
  ⟨nodes.map Binding.binder, Binding.bindersList nodes,
    fun around => Binding.mentionsList around nodes⟩

def caseReading (node : Case Name) : Reading :=
  ⟨[], node.binders, fun around => node.mentions around⟩

def casesReading (nodes : List (Case Name)) : Reading :=
  ⟨[], Case.bindersList nodes, fun around => Case.mentionsList around nodes⟩

mutual
theorem expr_reads : ∀ node : Expr Unit, ReadsAs names declares (expr node) exprReading
  | .block here bindings result => by
    refine ReadsAs.withScope ?_ fun lower => expr_confined [] (.block here bindings result)
    refine Reads.andThen (localBindings_reads bindings) fun _ => ?_
    exact Reads.andThen (optionalExpr_reads result) fun _ => Reads.pure
      (Reading.enclosed_append rfl)
  | .conditional here condition consequent alternative =>
    Reads.andThen (expr_reads condition) fun _ =>
      Reads.andThen (expr_reads consequent) fun _ =>
        Reads.andThen (expr_reads alternative) fun _ => Reads.pure rfl
  | .lambda here params body => by
    refine ReadsAs.withScope ?_ fun lower => expr_confined [] (.lambda here params body)
    refine Reads.andThen (params_reads params) fun _ => ?_
    exact Reads.andThen (expr_reads body) fun _ => Reads.pure (Reading.enclosed_append rfl)
  | .cases here scrutinee cases =>
    Reads.andThen (expr_reads scrutinee) fun _ =>
      Reads.andThen (caseList_reads cases) fun _ => Reads.pure rfl
  | .apply here function args =>
    Reads.andThen (expr_reads function) fun _ =>
      Reads.andThen (exprs_reads args) fun _ => Reads.pure rfl
  | .select here receiver selection => by
    refine Reads.andThen (expr_reads receiver) fun receiver => ?_
    refine Reads.andThen (reference_reads selection) fun selection => Reads.pure ?_
    show Reading.mk [] (receiver.binders ++ []) _ = _
    rw [List.append_nil]
    rfl
  | .reference node => Reads.andThen (reference_reads node) fun _ => Reads.pure rfl
  | .binary here op left right =>
    Reads.andThen (expr_reads left) fun _ =>
      Reads.andThen (expr_reads right) fun _ => Reads.pure rfl
  | .unary here op operand => Reads.andThen (expr_reads operand) fun _ => Reads.pure rfl
  | .literal here value => Reads.pure rfl
theorem optionalExpr_reads : ∀ node : Option (Expr Unit),
    ReadsAs names declares (optionalExpr node) optionalExprReading
  | none => Reads.pure rfl
  | some node => Reads.andThen (expr_reads node) fun _ => Reads.pure rfl
theorem exprs_reads : ∀ nodes : List (Expr Unit),
    ReadsAs names declares (exprs nodes) exprsReading
  | [] => Reads.pure rfl
  | node :: rest =>
    Reads.andThen (expr_reads node) fun _ =>
      Reads.andThen (exprs_reads rest) fun _ => Reads.pure rfl
theorem localBinding_reads : ∀ node : Binding Unit,
    ReadsAs names declares (localBinding node) bindingReading
  | ⟨here, name, type, value⟩ =>
    Reads.andThen (bindLocal_reads _ name here.range) fun _ =>
      Reads.andThen (ascription_reads type) fun _ =>
        Reads.andThen (expr_reads value) fun _ => Reads.pure rfl
theorem localBindings_reads : ∀ nodes : List (Binding Unit),
    ReadsAs names declares (localBindings nodes) bindingsReading
  | [] => Reads.pure rfl
  | node :: rest =>
    Reads.andThen (localBinding_reads node) fun _ =>
      Reads.andThen (localBindings_reads rest) fun _ => Reads.pure rfl
theorem caseNode_reads : ∀ node : Case Unit, ReadsAs names declares (caseNode node) caseReading
  | ⟨here, inner, body⟩ => by
    refine ReadsAs.withScope ?_ fun lower => caseNode_confined [] ⟨here, inner, body⟩
    refine Reads.andThen (pattern_reads inner) fun _ => ?_
    exact Reads.andThen (expr_reads body) fun _ => Reads.pure (Reading.enclosed_append rfl)
theorem caseList_reads : ∀ nodes : List (Case Unit),
    ReadsAs names declares (caseList nodes) casesReading
  | [] => Reads.pure rfl
  | node :: rest =>
    Reads.andThen (caseNode_reads node) fun _ =>
      Reads.andThen (caseList_reads rest) fun _ => Reads.pure rfl
end

/-! ## Declarations -/

theorem constructorParam_reads (name : ConstructorName) (node : ConstructorParam Unit) :
    ReadsAs names declares (constructorParam name node) fun node =>
      .flat [] node.ascription.mentions :=
  Reads.andThen (typeNode_reads node.ascription) fun _ => Reads.pure rfl

theorem constructor_reads (data : QualifiedName) (node : Constructor Unit) :
    ReadsAs names declares (constructor data node) fun node => .flat [] node.mentions := by
  refine Reads.after (addEdge_passes _ _) fun _ _ => ?_
  refine Reads.after (addEdge_passes _ _) fun _ _ => ?_
  refine Reads.withFrame (fun _ _ => Frame.offers_empty _) ?_
  refine Reads.andThen (ReadsAs.mapM_mentions (constructorParam_reads _)) fun _ => ?_
  exact Reads.andThen (ascription_reads _) fun _ => Reads.pure (Reading.flat_append _ _ _ _)

theorem data_reads (node : Data Unit) :
    ReadsAs names declares (data node) fun node => .flat [] node.mentions := by
  refine Reads.after currentNamespace_passes fun _ _ => ?_
  refine Reads.after (frameOfBinders_passes _ _) fun frame hframe => ?_
  refine Reads.withFrame hframe (Reads.andThen (typeVars_reads _) fun _ => ?_)
  exact Reads.andThen (ReadsAs.mapM_mentions (constructor_reads _)) fun _ =>
    Reads.pure (Reading.flat_append _ _ _ _)

theorem topLevelBinding_reads (node : Binding Unit) :
    ReadsAs names declares (topLevelBinding node) fun node =>
      ⟨[], node.value.binders, fun around => node.mentions around⟩ := by
  refine Reads.after currentNamespace_passes fun _ _ => ?_
  refine Reads.withFrame (fun _ _ => Frame.offers_empty _) ?_
  refine Reads.andThen (ascription_reads _) fun _ => ?_
  exact Reads.andThen (expr_reads _) fun _ => Reads.pure rfl

theorem functionBinding_reads (node : FunctionBinding Unit) :
    ReadsAs names declares (functionBinding node) fun node =>
      ⟨[], node.params.map Param.binder ++ node.body.binders,
        fun around => node.mentions around⟩ := by
  refine Reads.after currentNamespace_passes fun name _ => ?_
  refine Reads.after (frameOfBinders_passes _ _) fun frame hframe => ?_
  refine Reads.withFrame hframe (ReadsAs.withScope ?_ fun lower => ?_)
  · refine Reads.andThen (typeVars_reads _) fun _ => ?_
    refine Reads.andThen (params_reads _) fun _ => ?_
    refine Reads.andThen (ascription_reads _) fun _ => ?_
    refine Reads.andThen (expr_reads _) fun _ => Reads.pure ?_
    rw [Reading.empty_append, Reading.flat_append, Reading.flat_append, List.append_nil]
    exact Reading.enclosed_append rfl
  · refine withScope_confined ((typeVars_confined _).andThen fun _ => ?_)
    refine (Confined.mapM fun node _ => param_confined List.mem_cons_self node).andThen fun _ => ?_
    exact (ascription_confined _).andThen fun _ =>
      (expr_confined _ _).andThen fun _ => Confined.done _

/-- The reading is that of the declaration with no local binders around it. -/
structure IsReadingOf (r : Reading) (node : Declaration Name) : Prop where
  own : r.own = []
  binders : r.binders = node.binders
  mentions : r.mentions [] = node.mentions

/-- A declaration is resolved with its local names numbered from zero. -/
theorem declaration_reads (names : List (String × Name))
    (declares : ConstructorName → String → Prop) (node : Declaration Unit) (s : Resolver) :
    Ends (declaration node) s fun node t =>
      ∃ r, IsReadingOf r node ∧ Progress names declares { s with nextLocal := 0 } t r := by
  refine Ends.bind (Ends.modify (Reads.ends ?_ _))
  cases node with
  | data d => exact Reads.andThen (data_reads d) fun _ => Reads.pure ⟨rfl, rfl, rfl⟩
  | binding d => exact Reads.andThen (topLevelBinding_reads d) fun _ => Reads.pure ⟨rfl, rfl, rfl⟩
  | function d =>
    exact Reads.andThen (functionBinding_reads d) fun _ => Reads.pure ⟨rfl, rfl, rfl⟩

end Steps

end Resolve

end PolyFront
