import PolyFront.Proofs.Naming.Confined
import PolyFront.Proofs.Naming.Mentions
import PolyFront.Proofs.Naming.Slots

/-!
# Resolution read off its result

What a run of the resolver did can be read off the tree it gives.  Its binders carry the local
names in the order in which they were numbered, its mentions carry what the frames and the binders
around them offer, and the mentions without a name are just those that were reported.  A reading is
what one part of a tree says about all this; readings of parts that are resolved one after the
other are put together.
-/

namespace PolyFront

/-! ## What frames offer -/

/-- Values are bound to known names, types to names, and fields that are declared. -/
def Slot.Admits (names : List (String × Name)) (declares : ConstructorName → String → Prop)
    (here : Located Name) : Slot → Prop
  | .value text => (text, here.info) ∈ names ∧ here.info ≠ .nameless
  | .type _ => here.info ≠ .nameless
  | .field constructor name => declares constructor name

/-- What is bound in the frame is admitted. -/
def Frame.Offers (names : List (String × Name)) (declares : ConstructorName → String → Prop)
    (frame : Frame (Located Name)) : Prop :=
  ∀ slot here, frame.slot? slot = some here → slot.Admits names declares here

structure Stack.Offers (names : List (String × Name)) (declares : ConstructorName → String → Prop)
    (stack : Stack (Located Name)) : Prop where
  frames : ∀ frame ∈ stack.frames, frame.Offers names declares
  builtIns : ∀ frame, stack.builtIns = some frame → frame.Offers names declares

section Offers

variable {names names' : List (String × Name)} {declares : ConstructorName → String → Prop}
  {frame : Frame (Located Name)} {stack : Stack (Located Name)}

theorem Frame.Offers.mono (h : frame.Offers names declares) (hnames : names ⊆ names') :
    frame.Offers names' declares := by
  intro slot here hbound
  have hadmits := h slot here hbound
  cases slot with
  | value text => exact ⟨hnames hadmits.1, hadmits.2⟩
  | type name => exact hadmits
  | field constructor name => exact hadmits

theorem Frame.offers_empty (kind : ScopeKind) : (Frame.empty kind).Offers names declares :=
  fun slot _ hbound => nomatch (Frame.slot?_empty kind slot).symm.trans hbound

/-- The frame binds types at most. -/
def Frame.OffersTypes (frame : Frame (Located Name)) : Prop :=
  ∀ names declares, frame.Offers names declares

theorem Frame.Offers.put (h : frame.Offers names declares) (slot : Slot) {here : Located Name}
    (hslot : slot.Admits names declares here) : (frame.put here slot).Offers names declares := by
  intro other found hfound
  rw [Frame.slot?_put] at hfound
  split at hfound
  · next hother =>
      obtain rfl := Option.some.inj hfound
      exact hother ▸ hslot
  · exact h other found hfound

theorem Stack.Offers.mono (h : stack.Offers names declares) (hnames : names ⊆ names') :
    stack.Offers names' declares :=
  ⟨fun frame hmem => (h.frames frame hmem).mono hnames,
    fun frame hframe => (h.builtIns frame hframe).mono hnames⟩

theorem Stack.Offers.push (h : stack.Offers names declares)
    (hframe : frame.Offers names declares) : (stack.push frame).Offers names declares :=
  ⟨List.forall_mem_cons.2 ⟨hframe, h.frames⟩, h.builtIns⟩

theorem Stack.Offers.tail (h : stack.Offers names declares) :
    Offers names declares { stack with frames := stack.frames.tail } :=
  ⟨fun frame hmem => h.frames frame (List.mem_of_mem_tail hmem), h.builtIns⟩

/-- What is looked up is found in one of the frames. -/
theorem Stack.exists_of_lookup {β : Type} {get : Frame (Located Name) → Option β} {found : β}
    (h : stack.lookup get = some found) :
    ∃ frame, (frame ∈ stack.frames ∨ stack.builtIns = some frame) ∧ get frame = some found := by
  rcases Option.or_eq_some_iff.1 h with hframe | ⟨-, hbuiltIn⟩
  · obtain ⟨frame, hmem, hfound⟩ := List.exists_of_findSome?_eq_some hframe
    exact ⟨frame, .inl hmem, hfound⟩
  · obtain ⟨frame, hframe, hfound⟩ := Option.bind_eq_some_iff.1 hbuiltIn
    exact ⟨frame, .inr hframe, hfound⟩

theorem Stack.Offers.lookup (h : stack.Offers names declares) {β : Type}
    {get : Frame (Located Name) → Option β} {found : β} (hfound : stack.lookup get = some found) :
    ∃ frame : Frame (Located Name), frame.Offers names declares ∧ get frame = some found := by
  obtain ⟨frame, hmem | hbuiltIn, hget⟩ := Stack.exists_of_lookup hfound
  · exact ⟨frame, h.frames frame hmem, hget⟩
  · exact ⟨frame, h.builtIns frame hbuiltIn, hget⟩

/-- The constructor that a construct is a pattern of, when it is known. -/
def ScopeKind.patternOf? : ScopeKind → Option (Option ConstructorName)
  | .constructorPattern name => some name
  | _ => none

/-- The constructor of the nearest constructor pattern depends on the constructs only. -/
theorem Stack.enclosingConstructorPattern?_congr {stack stack' : Stack (Located Name)}
    (h : stack.shape = stack'.shape) :
    stack.enclosingConstructorPattern? = stack'.enclosingConstructorPattern? := by
  have hshape : ∀ stack : Stack (Located Name), stack.enclosingConstructorPattern? =
      (stack.shape.find? fun kind => kind.tag == .constructorPattern).bind
        ScopeKind.patternOf? := by
    intro stack
    rw [enclosingConstructorPattern?, enclosing?, shape, List.find?_map, Option.bind_map]
    rfl
  rw [hshape, hshape, h]

end Offers

/-! ## Reports -/

/-- Binders are numbered one after the other. -/
def Numbered (start : Nat) : List Binder → Prop
  | [] => True
  | b :: rest => b.name = .bound b.text start ∧ Numbered (start + 1) rest

theorem numbered_append {start : Nat} {binders binders' : List Binder} :
    Numbered start (binders ++ binders') ↔
      Numbered start binders ∧ Numbered (start + binders.length) binders' := by
  induction binders generalizing start with
  | nil => simp [Numbered]
  | cons b rest ih =>
    rw [List.cons_append, Numbered, Numbered, ih, and_assoc, List.length_cons, Nat.add_assoc,
      Nat.add_comm 1]

theorem Numbered.name_getElem {start : Nat} {binders : List Binder} (h : Numbered start binders)
    (i : Nat) (hi : i < binders.length) :
    binders[i].name = .bound binders[i].text (start + i) := by
  induction binders generalizing start i with
  | nil => cases hi
  | cons b rest ih =>
    cases i with
    | zero => exact h.1
    | succ i =>
      have hrest := ih h.2 i (Nat.lt_of_succ_lt_succ hi)
      rw [Nat.add_assoc, Nat.add_comm 1] at hrest
      exact hrest

/-- The texts with which reports of unresolved names start. -/
def unresolvedTexts : List (List Char) :=
  ["Reference to undefined value '".toList, "Reference to undefined type '".toList,
    "Reference to unknown constructor '".toList]

/-- The diagnostic reports a name that nothing is found for. -/
def Diagnostic.isUnresolved (d : Diagnostic) : Bool :=
  unresolvedTexts.any fun text => text.isPrefixOf d.message.toList

theorem isPrefixOf_append_of_not {text other : List Char} (rest : List Char)
    (h : text.isPrefixOf other = false) (h' : other.isPrefixOf text = false) :
    text.isPrefixOf (other ++ rest) = false := by
  induction text generalizing other with
  | nil => cases other <;> simp_all
  | cons c text ih =>
    cases other with
    | nil => simp at h'
    | cons c' other =>
      simp only [List.cons_append, List.isPrefixOf_cons_cons, Bool.and_eq_false_iff,
        beq_eq_false_iff_ne] at h h' ⊢
      by_cases hc : c = c'
      · exact .inr (ih (h.resolve_left fun hne => hne hc) (h'.resolve_left fun hne => hne hc.symm))
      · exact .inl hc

/-- A message that starts otherwise is about something else. -/
theorem isUnresolved_eq_false {d : Diagnostic} (text : String)
    (hmessage : ∃ rest, d.message = text ++ rest)
    (htext : unresolvedTexts.all fun unresolved =>
      !unresolved.isPrefixOf text.toList && !text.toList.isPrefixOf unresolved) :
    d.isUnresolved = false := by
  obtain ⟨rest, hmessage⟩ := hmessage
  rw [Diagnostic.isUnresolved, List.any_eq_false]
  intro unresolved hunresolved
  have h := List.all_eq_true.1 htext unresolved hunresolved
  simp only [Bool.and_eq_true, Bool.not_eq_true'] at h
  rw [hmessage, String.toList_append, isPrefixOf_append_of_not _ h.1 h.2]
  exact Bool.false_ne_true

theorem Mention.complaint_isUnresolved (uri : String) (m : Mention) :
    (m.complaint uri).isUnresolved = true := by
  have hmissing : "Reference to ".toList ++ (m.missing.toList ++ " '".toList) ∈
      unresolvedTexts := by
    cases m <;> rw [missing] <;> decide
  refine List.any_eq_true.2 ⟨_, hmissing, ?_⟩
  rw [List.isPrefixOf_iff_prefix, complaint]
  simp only [String.toList_append, List.append_assoc]
  exact ⟨m.text.toList ++ "'".toList, by simp only [List.append_assoc]⟩

/-- The second log goes on from the first one without a report of an unresolved name. -/
structure Log.Aside (log log' : Log) : Prop where
  longer : log.items <+: log'.items
  same : log'.items.filter Diagnostic.isUnresolved = log.items.filter Diagnostic.isUnresolved

theorem Log.Aside.refl (log : Log) : log.Aside log := ⟨List.prefix_rfl, rfl⟩

theorem Log.Aside.report {log : Log} {d : Diagnostic} (h : d.isUnresolved = false) :
    log.Aside (log.report d) :=
  ⟨List.prefix_append _ _, by simp [h]⟩

/-- The reports of the mentions that carry no name. -/
def complaints (uri : String) (mentions : List (Mention × List Binder)) : List Diagnostic :=
  ((mentions.map Prod.fst).filter fun m => m.here.info.isNameless).map (Mention.complaint uri)

theorem complaints_append (uri : String) (mentions mentions' : List (Mention × List Binder)) :
    complaints uri (mentions ++ mentions') =
      complaints uri mentions ++ complaints uri mentions' := by
  simp [complaints]

/-! ## Readings -/

/-- What is read off a part of a resolved tree: the binders that are visible in the construct
around it, all its binders, and its mentions when the given binders are around. -/
structure Reading where
  own : List Binder
  binders : List Binder
  mentions : List Binder → List (Mention × List Binder)

namespace Reading

def empty : Reading := ⟨[], [], fun _ => []⟩

instance : Append Reading :=
  ⟨fun r r' => ⟨r.own ++ r'.own, r.binders ++ r'.binders,
    fun around => r.mentions around ++ r'.mentions around⟩⟩

@[simp]
theorem append_empty (r : Reading) : r ++ empty = r := by
  show Reading.mk (r.own ++ []) (r.binders ++ []) (fun around => r.mentions around ++ []) = r
  simp only [List.append_nil]

@[simp]
theorem empty_append (r : Reading) : empty ++ r = r := rfl

/-- Binders that are all visible in the construct around them, and mentions next to them. -/
def flat (binders : List Binder) (mentions : List Mention) : Reading :=
  ⟨binders, binders, fun around => amid around mentions⟩

theorem flat_append (binders binders' : List Binder) (mentions mentions' : List Mention) :
    flat binders mentions ++ flat binders' mentions' =
      flat (binders ++ binders') (mentions ++ mentions') := by
  show Reading.mk _ _ (fun around => amid around mentions ++ amid around mentions') = _
  simp only [amid, ← List.map_append]
  rfl

/-- All parts of a construct, the binders of which are visible nowhere else. -/
def enclosed (r : Reading) : Reading :=
  ⟨[], r.binders, fun around => r.mentions (around ++ r.own)⟩

/-- A part that shows no binders goes last. -/
theorem enclosed_append {r r' : Reading} (h : r'.own = []) :
    (r ++ r').enclosed = ⟨[], r.binders ++ r'.binders,
      fun around => r.mentions (around ++ r.own) ++ r'.mentions (around ++ r.own)⟩ := by
  show Reading.mk [] _ (fun around => r.mentions (around ++ (r.own ++ r'.own)) ++
    r'.mentions (around ++ (r.own ++ r'.own))) = _
  rw [h, List.append_nil]
  rfl

/-- The readings of several parts. -/
def join {α : Type} (reading : α → Reading) (parts : List α) : Reading :=
  parts.foldr (fun part r => reading part ++ r) empty

theorem join_flat {α : Type} (binders : α → List Binder) (mentions : α → List Mention)
    (parts : List α) : join (fun part => flat (binders part) (mentions part)) parts =
      flat (parts.flatMap binders) (parts.flatMap mentions) := by
  induction parts with
  | nil => rfl
  | cons part rest ih =>
    rw [List.flatMap_cons, List.flatMap_cons, ← flat_append, ← ih]
    rfl

end Reading

namespace Mention

/-- A value or a constructor that is found is known or bound around the mention. -/
def Found (names : List (String × Name)) (around : List Binder) : Mention → Prop
  | .value node => node.here.info = .nameless ∨
      (node.id.canonical, node.here.info) ∈ names ++ around.map Binder.entry
  | .constructor here id _ => here.info = .nameless ∨
      (id.canonical, here.info) ∈ names ++ around.map Binder.entry
  | .type _ _ => True
  | .typeVar _ => True

/-- The fields of a constructor that is found are declared. -/
def Fits (declares : ConstructorName → String → Prop) : Mention → Prop
  | .constructor here _ fields => ∀ constructor, here.info = .constructor constructor →
      ∀ field ∈ fields, declares constructor field.field
  | .value _ => True
  | .type _ _ => True
  | .typeVar _ => True

end Mention

namespace Resolver

/-- What has happened to the mentions on the way from the first resolver to the second one. -/
structure Accounts (names : List (String × Name)) (declares : ConstructorName → String → Prop)
    (s t : Resolver) (mentions : List (Mention × List Binder)) : Prop where
  reported : t.log.items.filter Diagnostic.isUnresolved =
    s.log.items.filter Diagnostic.isUnresolved ++ complaints s.uri mentions
  found : ∀ entry ∈ mentions, entry.1.Found names entry.2
  fits : t.log.items = s.log.items → ∀ entry ∈ mentions, entry.1.Fits declares

/-- The part with the given reading is resolved on the way from the first resolver to the second
one.  Its mentions are accounted for wherever its own binders are around. -/
structure Progress (names : List (String × Name)) (declares : ConstructorName → String → Prop)
    (s t : Resolver) (r : Reading) : Prop where
  uri : t.uri = s.uri
  longer : s.log.items <+: t.log.items
  counted : t.nextLocal = s.nextLocal + r.binders.length
  numbered : Numbered s.nextLocal r.binders
  offers : ∀ around, r.own ⊆ around →
    s.stack.Offers (names ++ around.map Binder.entry) declares →
      t.stack.Offers (names ++ around.map Binder.entry) declares
  accounts : ∀ around, r.own ⊆ around →
    s.stack.Offers (names ++ around.map Binder.entry) declares →
      Accounts names declares s t (r.mentions around)

variable {names : List (String × Name)} {declares : ConstructorName → String → Prop}
    {s t u : Resolver}
  {r r' : Reading}

theorem Accounts.nil (h : t.log.items.filter Diagnostic.isUnresolved =
    s.log.items.filter Diagnostic.isUnresolved) : Accounts names declares s t [] :=
  ⟨h.trans (List.append_nil _).symm, fun _ h => (List.not_mem_nil h).elim,
    fun _ _ h => (List.not_mem_nil h).elim⟩

/-- A log that is the same at the end was the same in between. -/
theorem silent_between (h : s.log.items <+: t.log.items) (h' : t.log.items <+: u.log.items)
    (hsame : u.log.items = s.log.items) :
    t.log.items = s.log.items ∧ u.log.items = t.log.items := by
  rw [hsame] at h'
  have hmiddle : t.log.items = s.log.items :=
    h'.eq_of_length (Nat.le_antisymm h'.length_le h.length_le)
  exact ⟨hmiddle, hsame.trans hmiddle.symm⟩

theorem Accounts.append {mentions mentions' : List (Mention × List Binder)}
    (h : Accounts names declares s t mentions) (h' : Accounts names declares t u mentions')
    (huri : t.uri = s.uri) (hlonger : s.log.items <+: t.log.items)
    (hlonger' : t.log.items <+: u.log.items) :
    Accounts names declares s u (mentions ++ mentions') := by
  refine ⟨?_, List.forall_mem_append.2 ⟨h.found, h'.found⟩, fun hsilent => ?_⟩
  · rw [h'.reported, h.reported, huri, complaints_append, List.append_assoc]
  · obtain ⟨hsilent, hsilent'⟩ := silent_between hlonger hlonger' hsilent
    exact List.forall_mem_append.2 ⟨h.fits hsilent, h'.fits hsilent'⟩

theorem Progress.append (h : Progress names declares s t r) (h' : Progress names declares t u r') :
    Progress names declares s u (r ++ r') where
  uri := h'.uri.trans h.uri
  longer := h.longer.trans h'.longer
  counted := by
    show u.nextLocal = s.nextLocal + (r.binders ++ r'.binders).length
    rw [h'.counted, h.counted, List.length_append, Nat.add_assoc]
  numbered := numbered_append.2 ⟨h.numbered, h.counted ▸ h'.numbered⟩
  offers around hown hs :=
    h'.offers around (List.append_subset.1 hown).2
      (h.offers around (List.append_subset.1 hown).1 hs)
  accounts around hown hs := by
    obtain ⟨hown, hown'⟩ := List.append_subset.1 hown
    have hmiddle := h.offers around hown hs
    exact (h.accounts around hown hs).append (h'.accounts around hown' hmiddle) h.uri h.longer
      h'.longer

/-- Nothing but the dependencies and what is resolved before has changed. -/
structure Still (s t : Resolver) : Prop where
  uri : t.uri = s.uri
  log : t.log = s.log
  nextLocal : t.nextLocal = s.nextLocal
  stack : t.stack = s.stack

theorem Still.progress (h : Still s t) : Progress names declares s t .empty where
  uri := h.uri
  longer := h.log ▸ List.prefix_rfl
  counted := h.nextLocal
  numbered := True.intro
  offers _ _ hs := h.stack ▸ hs
  accounts _ _ _ := .nil (by rw [h.log])

/-- Other things are reported. -/
theorem progress_aside {log : Log} (h : s.log.Aside log) :
    Progress names declares s { s with log := log } .empty where
  uri := rfl
  longer := h.longer
  counted := rfl
  numbered := True.intro
  offers _ _ hs := hs
  accounts _ _ _ := .nil h.same

/-- A single mention that finds something. -/
theorem Still.found (h : Still s t) {m : Mention}
    (hfound : ∀ around : List Binder, s.stack.Offers (names ++ around.map Binder.entry) declares →
      m.here.info ≠ .nameless ∧ m.Found names around)
    (hfits : m.Fits declares) : Progress names declares s t (.flat [] [m]) where
  uri := h.uri
  longer := h.log ▸ List.prefix_rfl
  counted := h.nextLocal
  numbered := True.intro
  offers _ _ hs := h.stack ▸ hs
  accounts around _ hs := by
    obtain ⟨hnamed, hmention⟩ := hfound around hs
    have hquiet : m.here.info.isNameless = false := by
      cases hname : m.here.info <;> simp_all [Name.isNameless]
    refine ⟨?_, ?_, fun _ => ?_⟩
    · simp [h.log, complaints, amid, Reading.flat, hquiet]
    · simpa [Reading.flat, amid] using hmention
    · simpa [Reading.flat, amid] using hfits

/-- A single mention that finds nothing and is reported. -/
theorem progress_missed {m : Mention} (hname : m.here.info = .nameless) :
    Progress names declares s { s with log := s.log.report (m.complaint s.uri) }
      (.flat [] [m]) where
  uri := rfl
  longer := List.prefix_append _ _
  counted := rfl
  numbered := True.intro
  offers _ _ hs := hs
  accounts around _ _ := by
    refine ⟨?_, ?_, fun hsilent => ?_⟩
    · simp [complaints, amid, Reading.flat, hname, Name.isNameless,
        m.complaint_isUnresolved]
    · cases m <;> simp_all [Reading.flat, amid, Mention.Found, Mention.here]
    · simp at hsilent

/-- What is mentioned by a constructor pattern is the same without its fields. -/
theorem Progress.withFields {here : Located Name} {id : QualifiedId}
    {fields : List (FieldPattern Name)} {binders : List Binder} {mentions : List Mention}
    (h : Progress names declares s t (.flat binders (.constructor here id [] :: mentions)))
    (hfields : ∀ around, binders ⊆ around →
      s.stack.Offers (names ++ around.map Binder.entry) declares → t.log.items = s.log.items →
        (Mention.constructor here id fields).Fits declares) :
    Progress names declares s t (.flat binders (.constructor here id fields :: mentions)) where
  uri := h.uri
  longer := h.longer
  counted := h.counted
  numbered := h.numbered
  offers := h.offers
  accounts around hown hs := by
    obtain ⟨hreported, hfound, hfits⟩ := h.accounts around hown hs
    obtain ⟨hfirst, hrest⟩ := List.forall_mem_cons.1 hfound
    refine ⟨hreported.trans ?_, List.forall_mem_cons.2 ⟨hfirst, hrest⟩, fun hsilent => ?_⟩
    · congr 1
      simp only [complaints, Reading.flat, amid, List.map_cons, List.filter_cons, Mention.here]
      split <;> rfl
    · exact List.forall_mem_cons.2
        ⟨hfields around hown hs hsilent, (List.forall_mem_cons.1 (hfits hsilent)).2⟩

section Pushed

variable {frame : Frame (Located Name)} (hframe : frame.OffersTypes)
  (h : Progress names declares { s with stack := s.stack.push frame } t r)

include hframe h

/-- A frame is pushed before the part and popped after it. -/
theorem Progress.popped : Progress names declares s
    { t with stack := { t.stack with frames := t.stack.frames.tail } } r where
  uri := h.uri
  longer := h.longer
  counted := h.counted
  numbered := h.numbered
  offers around hown hs := (h.offers around hown (hs.push (hframe _ _))).tail
  accounts around hown hs := by
    obtain ⟨hreported, hfound, hfits⟩ := h.accounts around hown (hs.push (hframe _ _))
    exact ⟨hreported, hfound, hfits⟩

/-- The part fills the frame that is pushed before it, and the frames below stay as they are. -/
theorem Progress.enclosed {stack : Stack (Located Name)} (hstack : stack = s.stack) :
    Progress names declares s { t with stack := stack } r.enclosed where
  uri := h.uri
  longer := h.longer
  counted := h.counted
  numbered := h.numbered
  offers _ _ hs := hstack ▸ hs
  accounts around _ hs := by
    have hinside : (s.stack.push frame).Offers
        (names ++ (around ++ r.own).map Binder.entry) declares := by
      refine (hs.mono ?_).push (hframe _ _)
      rw [List.map_append, ← List.append_assoc]
      exact List.subset_append_left _ _
    obtain ⟨hreported, hfound, hfits⟩ :=
      h.accounts (around ++ r.own) (List.subset_append_right _ _) hinside
    exact ⟨hreported, hfound, hfits⟩

end Pushed

end Resolver

end PolyFront
