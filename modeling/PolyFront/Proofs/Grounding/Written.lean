import PolyFront.Checking.Kinds
import PolyFront.Proofs.Grounding.Nodes
import PolyFront.Proofs.Grounding.Shown

/-!
# Kinds of written types

The kinds that the nodes of a written type carry are free when the type is done.  Inside of a
function a name may have the kind of a parameter, which is free because the node shows it.  Outside
of functions all kinds that names have are free, and nothing needs to be shown.
-/

namespace PolyFront

open Run Check World

/-! ## What nodes carry -/

theorem TypeNode.infosList_eq_flatMap {α : Type} (nodes : List (TypeNode α)) :
    TypeNode.infosList nodes = nodes.flatMap TypeNode.infos := by
  induction nodes with
  | nil => rfl
  | cons node rest ih => rw [TypeNode.infosList, ih, List.flatMap_cons]

theorem TypeNode.here_mem_infos {α : Type} (node : TypeNode α) : node.here.info ∈ node.infos := by
  cases node <;> simp [TypeNode.here, TypeNode.infos]

/-- The kinds that are carried. -/
def kindsOf (infos : List Attributes) : List Kind :=
  infos.filterMap fun info => info.classifier.kind?

/-- Inside of a function the kinds that are carried are shown. -/
def shownBy (inside : Bool) (infos : List Attributes) : List Kind :=
  bif inside then kindsOf infos else []

theorem mem_kindsOf {infos : List Attributes} {kind : Kind} :
    kind ∈ kindsOf infos ↔ ∃ info ∈ infos, info.classifier = .ofKind kind := by
  rw [kindsOf, List.mem_filterMap]
  refine exists_congr fun info => and_congr_right fun _ => ?_
  cases info.classifier with
  | ofKind other => simp [Classifier.kind?]
  | ofType type => simp [Classifier.kind?]

theorem shownBy_append (inside : Bool) (infos infos' : List Attributes) :
    shownBy inside (infos ++ infos') = shownBy inside infos ++ shownBy inside infos' := by
  cases inside with
  | false => rfl
  | true => exact List.filterMap_append

theorem mem_shownBy {inside : Bool} {infos : List Attributes} {kind : Kind}
    (h : kind ∈ shownBy inside infos) : ∃ info ∈ infos, info.classifier = .ofKind kind := by
  cases inside with
  | false => exact (List.not_mem_nil h).elim
  | true => exact mem_kindsOf.1 h

/-- What a node carries when its classifier is substituted. -/
def Store.substituteInfo (store : Store) (info : Attributes) : Attributes :=
  { info with classifier := store.substitute info.classifier }

namespace World

variable {w w' w'' : World} {inside : Bool} {infos infos' : List Attributes}

/-- A kind that is free is carried. -/
def Carries (w : World) (info : Attributes) : Prop :=
  ∃ kind, info.classifier = .ofKind kind ∧ kind.Proper w.store.nextKind ∧ w.Free kind

/-- Outside of functions no frame is that of one. -/
def Apart (inside : Bool) (w : World) : Prop :=
  inside = false → ∀ frame ∈ w.store.stack.frames, frame.tag ≠ .binding

/-- Nodes were found, and inside of a function they are shown. -/
structure Found (inside : Bool) (infos : List Attributes) (w w' : World) : Prop
    extends KindSteps (shownBy inside infos) w w' where
  carries : ∀ info ∈ infos, w'.Carries info

theorem Later.carries (h : Later w w') {info : Attributes} (hinfo : w.Carries info) :
    w'.Carries info := by
  obtain ⟨kind, heq, hproper, hfree⟩ := hinfo
  exact ⟨kind, heq, hproper.mono h.kinds, h.free hproper hfree⟩

theorem KindSteps.found (h : KindSteps [] w w') : Found inside [] w w' := by
  refine ⟨?_, fun _ hinfo => (List.not_mem_nil hinfo).elim⟩
  cases inside <;> exact h

theorem Found.trans (h : Found inside infos w w') (h' : Found inside infos' w' w'') :
    Found inside (infos ++ infos') w w'' where
  toKindSteps := by
    rw [shownBy_append]
    exact h.toKindSteps.trans h'.toKindSteps
  carries info hinfo := by
    rcases List.mem_append.1 hinfo with hinfo | hinfo
    · exact h'.toLater.carries (h.carries info hinfo)
    · exact h'.carries info hinfo

theorem Found.append (h : Found inside infos w w') (h' : KindSteps [] w' w'') :
    Found inside infos w w'' := by
  have hfound : Found inside [] w' w'' := h'.found
  have hboth := h.trans hfound
  rwa [List.append_nil] at hboth

theorem Apart.steps {added : List Kind} (h : w.Apart inside) (hsteps : Steps added w w')
    (hw : w.Kept) : w'.Apart inside := by
  intro houtside
  cases hframes : w.store.stack.frames with
  | nil => exact (hw.nonempty hframes).elim
  | cons frame rest =>
    obtain ⟨frame', hframes', htag, -⟩ := hsteps.stack.frames hframes
    have hold := h houtside
    rw [hframes] at hold
    rw [hframes']
    intro other hother
    rcases List.mem_cons.1 hother with rfl | hother
    · rw [htag]
      exact hold frame List.mem_cons_self
    · exact hold other (List.mem_cons_of_mem _ hother)

theorem Apart.pushed (h : w.Apart inside) {kind : ScopeKind} (hkind : kind.tag ≠ .binding) :
    (w.pushed kind).Apart inside := by
  intro houtside frame hframe
  rcases List.mem_cons.1 hframe with rfl | hframe
  · exact hkind
  · exact h houtside frame hframe

/-- Nodes are put together.  Inside of a function it is enough that their kinds were created. -/
theorem Found.reshow (h : Found inside infos w w')
    (hold : ∀ info ∈ infos, ∀ kind, info.classifier = .ofKind kind →
      kind ∈ kindsOf infos' ∨ kind.substitute w'.store.kinds ∈ kindsOf infos')
    (hnew : ∀ info ∈ infos', ∃ kind, info.classifier = .ofKind kind ∧
      kind.Proper w'.store.nextKind ∧ (inside = false → w'.Free kind)) :
    ∃ w₁, w₁.store = w'.store ∧ Found inside infos' w w₁ := by
  cases inside with
  | false =>
    refine ⟨w', rfl, h.toKindSteps, fun info hinfo => ?_⟩
    obtain ⟨kind, heq, hproper, hfree⟩ := hnew info hinfo
    exact ⟨kind, heq, hproper, hfree rfl⟩
  | true =>
    have hproper : ∀ kind ∈ kindsOf infos', kind.Proper w'.store.nextKind := by
      intro kind hkind
      obtain ⟨info, hinfo, heq⟩ := mem_kindsOf.1 hkind
      obtain ⟨other, heq', hproper, -⟩ := hnew info hinfo
      rw [heq, Classifier.ofKind.injEq] at heq'
      exact heq' ▸ hproper
    have hshown := h.toKindSteps.reshow (kindsOf infos') (fun kind hkind => by
      obtain ⟨info, hinfo, heq⟩ := mem_kindsOf.1 hkind
      exact (hold info hinfo kind heq).imp_right .inl) hproper
    refine ⟨{ w' with shown := w.shown ++ kindsOf infos' }, rfl, hshown, fun info hinfo => ?_⟩
    obtain ⟨kind, heq, hproper, -⟩ := hnew info hinfo
    exact ⟨kind, heq, hproper, Kind.free_of_mem
      (List.mem_append_right _ (mem_kindsOf.2 ⟨info, hinfo, heq⟩))⟩

/-- A node is put on top of nodes that were found. -/
theorem Found.cons (h : Found inside infos w w') (info : Attributes) {kind : Kind}
    (hinfo : info.classifier = .ofKind kind) (hproper : kind.Proper w'.store.nextKind)
    (hfree : inside = false → w'.Free kind) :
    ∃ w₁, w₁.store = w'.store ∧ Found inside (info :: infos) w w₁ := by
  refine h.reshow (fun other hother k hk => .inl (mem_kindsOf.2
    ⟨other, List.mem_cons_of_mem _ hother, hk⟩)) fun other hother => ?_
  rcases List.mem_cons.1 hother with rfl | hother
  · exact ⟨kind, hinfo, hproper, hfree⟩
  · obtain ⟨k, hk, hproper, hfree⟩ := h.carries other hother
    exact ⟨k, hk, hproper, fun _ => hfree⟩

/-- Nodes are substituted. -/
theorem Found.substitute (h : Found inside infos w w') : ∃ w₁, w₁.store = w'.store ∧
    Found inside (infos.map w'.store.substituteInfo) w w₁ := by
  refine h.reshow (fun info hinfo kind hkind => .inr (mem_kindsOf.2
    ⟨_, List.mem_map_of_mem hinfo, ?_⟩)) fun info hinfo => ?_
  · rw [Store.substituteInfo, hkind]
    rfl
  · obtain ⟨old, hold, rfl⟩ := List.mem_map.1 hinfo
    obtain ⟨kind, hkind, hproper, hfree⟩ := h.carries old hold
    refine ⟨kind.substitute w'.store.kinds, ?_, h.kept.kinds.substitute_proper hproper, fun _ => ?_⟩
    · rw [Store.substituteInfo, hkind]
      rfl
    · exact (Kind.free_substitute h.kept.wellFounded).2 hfree

/-- A frame that forgets its variables is popped once the nodes found in it are substituted. -/
theorem Found.drop {w₁ : World} {kind : ScopeKind} {frame : Frame (Located Attributes)}
    {rest : List (Frame (Located Attributes))} (hw : w.Kept)
    (h : Found inside (infos.map w₁.store.substituteInfo) (w.pushed kind) w₁)
    (hdrops : kind.tag.dropsVariables = true) (hframes : w₁.store.stack.frames = frame :: rest) :
    Found inside (infos.map w₁.store.substituteInfo) w
      { w₁ with store := w₁.store.left frame rest } := by
  have hsturdy : ∀ other ∈ shownBy inside (infos.map w₁.store.substituteInfo),
      Kind.Sturdy frame.unsolvedKinds w₁.store.kinds other := by
    intro other hother id hid
    obtain ⟨info, hinfo, heq⟩ := mem_shownBy hother
    obtain ⟨old, hold, rfl⟩ := List.mem_map.1 hinfo
    rw [Store.substituteInfo] at heq
    cases hclassifier : old.classifier with
    | ofType type => rw [hclassifier] at heq; cases heq
    | ofKind own =>
      rw [hclassifier] at heq
      obtain rfl := Classifier.ofKind.inj heq
      exact .inr (Kind.final_of_mem_substitute h.kept.wellFounded hid)
  obtain ⟨hsteps, hlater, -⟩ := h.toKindSteps.drop hw hdrops hframes hsturdy
  exact ⟨hsteps, fun info hinfo => hlater.carries (h.carries info hinfo)⟩

end World

/-! ## Runs that find nodes -/

namespace Run

variable {σ α β : Type} {s : σ}

theorem Ends.of_map {run : Run σ α} (f : α → β) (post : β → σ → Prop)
    (h : Ends (f <$> run) s post) : Ends run s fun a s' => post (f a) s' := by
  intro a s' hrun
  refine h (f a) s' ?_
  show EStateM.map f run s = _
  rw [EStateM.map, hrun]

end Run

namespace Check

variable {α ι : Type} {w : World} {inside : Bool} {c : Checker}

/-- From a checker with the store of the world the run finds nodes. -/
def FindsNodes (inside : Bool) (w : World) (run : Check α) (infos : α → List Attributes) : Prop :=
  ∀ c : Checker, c.store = w.store → Ends run c fun a c' =>
    ∃ w', w'.store = c'.store ∧ w.Found inside (infos a) w'

theorem lift_ends {run : Solve α} {post : α → Checker → Prop}
    (h : Ends run c.store fun a s' => post a { c with store := s' }) :
    Ends (liftM run : Check α) c post := Ends.within h

theorem lift_mapM_ends {f : ι → Solve α} {items : List ι} {post : List α → Checker → Prop}
    (h : Ends (items.mapM f) c.store fun as s' => post as { c with store := s' }) :
    Ends (items.mapM fun item => (liftM (f item) : Check α)) c post := by
  induction items generalizing c post with
  | nil => exact Ends.pure (h [] c.store rfl)
  | cons item rest ih =>
    rw [List.mapM_cons]
    refine Ends.bind (lift_ends fun a s ha => Ends.bind (ih fun as s' has => Ends.pure ?_))
    refine h (a :: as) s' ?_
    rw [List.mapM_cons]
    show EStateM.bind (f item) _ c.store = _
    rw [EStateM.bind, ha]
    show EStateM.bind (rest.mapM f) _ s = _
    rw [EStateM.bind, has]
    rfl

theorem kindOf_ends {here : Located Attributes} {kind : Kind} {post : Kind → Checker → Prop}
    (hkind : here.info.classifier = .ofKind kind) (h : post kind c) :
    Ends (kindOf here) c post := by
  rw [kindOf, hkind]
  exact Ends.pure h

theorem report_ends (range : Range) (message : String) :
    Ends (report range message) c fun _ c' => c'.store = c.store := Ends.modify rfl

/-- Nodes are found one after the other. -/
theorem mapM_finds (run : ι → Check α) {infos : α → List Attributes} :
    ∀ (items : List ι) {w : World}, w.Kept → w.Apart inside →
    (∀ item ∈ items, ∀ w', Later w w' → w'.Kept → w'.Apart inside →
      FindsNodes inside w' (run item) infos) →
    FindsNodes inside w (items.mapM run) fun as => as.flatMap infos
  | [], w, hw, _, _ => fun c hc => Ends.pure ⟨w, hc.symm, hw.kindSteps.found⟩
  | item :: rest, w, hw, hapart, hrun => by
    intro c hc
    rw [List.mapM_cons]
    refine Ends.bind ((hrun item List.mem_cons_self w (.refl w) hw hapart c hc).mono ?_)
    rintro a c₁ ⟨w₁, hc₁, hfound⟩
    refine Ends.bind ((mapM_finds run rest hfound.kept (hapart.steps hfound.toSteps hw)
      (fun other hother w' hlater => hrun other (List.mem_cons_of_mem _ hother) w'
        (hfound.toLater.trans hlater)) c₁ hc₁.symm).mono ?_)
    rintro as c₂ ⟨w₂, hc₂, hfound'⟩
    exact Ends.pure ⟨w₂, hc₂, hfound.trans hfound'⟩

/-- What a traversal that substitutes leads to. -/
theorem traverse_substitute_ends {run : Check α} {infos : α → List Attributes}
    {before : List Attributes} (h : infos <$> run =
      before.mapM fun info => (Solve.substitute info : Check Attributes)) :
    Ends run c fun a c' => c' = c ∧ infos a = before.map c.store.substituteInfo := by
  have hall : ∀ before : List Attributes,
      Ends (before.mapM fun info => (Solve.substitute info : Check Attributes)) c
        fun after c' => c' = c ∧ after = before.map c.store.substituteInfo := by
    intro before
    induction before with
    | nil => exact Ends.pure ⟨rfl, rfl⟩
    | cons info rest ih =>
      rw [List.mapM_cons]
      refine Ends.bind (lift_ends (Ends.bind (Ends.get (Ends.pure ?_))))
      refine Ends.bind (ih.mono ?_)
      rintro _ _ ⟨rfl, rfl⟩
      exact Ends.pure ⟨rfl, rfl⟩
  exact Ends.of_map infos (fun after c' =>
    c' = c ∧ after = before.map c.store.substituteInfo) (h ▸ hall before)

/-- A frame around nodes that are substituted at last. -/
theorem withScope_finds {kind : ScopeKind} {body : Check α} {infos : α → List Attributes}
    (hw : w.Kept) (hdrops : kind.tag.dropsVariables = true)
    (hbody : ∀ c : Checker, c.store = (w.pushed kind).store → Ends body c fun a c' =>
      ∃ (w' : World) (before : List Attributes), w'.store = c'.store ∧
        infos a = before.map w'.store.substituteInfo ∧ (w.pushed kind).Found inside (infos a) w') :
    FindsNodes inside w (withScope kind body) infos := by
  intro c hc
  refine Ends.bind (lift_ends (Ends.modify (Ends.bind ((hbody _ ?_).mono ?_))))
  · show c.store.pushed kind = _
    rw [hc]
    rfl
  rintro a c₁ ⟨w₁, before, hc₁, hbefore, hfound⟩
  refine Ends.bind (lift_ends ?_)
  rw [← hc₁]
  refine (Solve.popScope_left hdrops).mono ?_
  rintro frame _ ⟨rest, hframes, -, rfl⟩
  rw [hbefore] at hfound
  refine Ends.pure ⟨{ w₁ with store := w₁.store.left frame rest }, rfl, ?_⟩
  rw [hbefore]
  exact hfound.drop hw hdrops hframes

/-! ## Names -/

theorem freshKind_finds (hw : w.Kept) (hc : c.store = w.store) :
    Ends (liftM Solve.freshKind : Check Kind) c fun kind c' => ∃ w', w'.store = c'.store ∧
      KindSteps [] w w' ∧ kind.Proper w'.store.nextKind ∧ w'.Free kind := by
  refine lift_ends ?_
  rw [hc]
  refine Solve.freshKind_newKind.mono ?_
  rintro _ _ ⟨frame, rest, hframes, rfl, rfl⟩
  have hmade := hw.made_newKind hframes
  exact ⟨{ w with store := w.store.newKind frame rest }, rfl, hmade.toKindSteps,
    Kind.proper_unsolved.2 (Nat.lt_succ_self _), hmade.free_fresh hw (Nat.le_refl _)⟩

/-- A name is bound in the innermost frame. -/
theorem put_finds (hw : w.Kept) (hc : c.store = w.store) (slot : Slot)
    {item : Located Attributes} {run : Solve Unit} (hrun : run =
      Solve.onStack (Stack.updateTop fun frame => frame.put item slot))
    (hitem : ∀ tag, w.Bound tag item) :
    Ends (liftM run : Check Unit) c fun _ c' => ∃ w', w'.store = c'.store ∧ KindSteps [] w w' := by
  subst hrun
  refine lift_ends (Ends.within (Stack.updateTop_ends fun frame rest hframes => ?_))
  rw [hc] at hframes
  refine ⟨_, ?_, hw.put hframes (hitem _) slot⟩
  dsimp only
  rw [hc]

theorem bound_of_free {kind : Kind} (here : Located Attributes)
    (hkind : here.info.classifier = .ofKind kind) (hproper : kind.Proper w.store.nextKind)
    (hfree : w.Free kind) (tag : ScopeTag) : w.Bound tag here where
  fits := by
    rw [hkind]
    exact hproper
  free _ other heq := by
    rw [hkind] at heq
    exact Classifier.ofKind.inj heq ▸ hfree

/-- The kind of a name.  Outside of functions it is free. -/
theorem kindOfName_finds (name : Name) (hw : w.Kept) (hapart : w.Apart inside)
    (hc : c.store = w.store) :
    Ends (kindOfName name) c fun kind c' => ∃ w', w'.store = c'.store ∧ KindSteps [] w w' ∧
      kind.Proper w'.store.nextKind ∧ (inside = false → w'.Free kind) := by
  have hfresh : Ends (liftM Solve.freshKind : Check Kind) c fun kind c' => ∃ w',
      w'.store = c'.store ∧ KindSteps [] w w' ∧ kind.Proper w'.store.nextKind ∧
        w'.Free kind := freshKind_finds hw hc
  unfold kindOfName
  split
  · refine hfresh.mono ?_
    rintro kind c' ⟨w', hc', hsteps, hproper, hfree⟩
    exact ⟨w', hc', hsteps, hproper, fun _ => hfree⟩
  refine Ends.bind (Ends.get ?_)
  split
  · rename_i kind hkind
    obtain ⟨here, hfound, hclassifier⟩ := Option.bind_eq_some_iff.1 hkind
    rw [hc] at hfound
    obtain ⟨tag, hbound, htag⟩ := hw.stack.lookup (.type name.canonical) hfound
    have hclassifier : here.info.classifier = .ofKind kind := by
      cases heq : here.info.classifier with
      | ofKind other => rw [heq] at hclassifier; rw [Option.some.inj hclassifier]
      | ofType type => rw [heq] at hclassifier; cases hclassifier
    have hproper := hbound.fits
    rw [hclassifier] at hproper
    refine lift_ends (Ends.bind (Ends.get (Ends.pure ⟨w, hc.symm, hw.kindSteps, ?_, fun h => ?_⟩)))
    · rw [hc]
      exact hw.kinds.substitute_proper hproper
    · rw [hc]
      refine (Kind.free_substitute hw.wellFounded).2 (hbound.free ?_ kind hclassifier)
      rcases htag with rfl | ⟨frame, hframe, rfl⟩
      · exact fun heq => by cases heq
      · exact hapart h frame hframe
  · refine Ends.bind (hfresh.mono ?_)
    rintro kind c₁ ⟨w₁, hc₁, hsteps, hproper, hfree⟩
    refine Ends.bind (lift_ends (Ends.within (Stack.updateTop_ends fun frame rest hframes => ?_)))
    rw [← hc₁] at hframes
    rw [Frame.populateType]
    split
    · refine Ends.pure ⟨w₁, ?_, hsteps, hproper, fun _ => hfree⟩
      dsimp only
      rw [← hframes, ← hc₁]
    · have hput := hsteps.kept.put hframes
        (bound_of_free (.nowhere ⟨name, .ofKind kind⟩) rfl hproper hfree _)
        (.type name.canonical)
      refine Ends.pure ⟨_, ?_, hsteps.trans hput, hproper, fun _ => hput.free hproper hfree⟩
      dsimp only
      rw [← hc₁]
      rfl

end Check

end PolyFront
