import Mathlib.Logic.Function.Basic
import PolyFront.Checking.Checker

/-!
# The texts of kinds

A kind can be read back from its text.  The text of a kind is followed by nothing, by a closing
parenthesis or by a comma, unless it is the bare argument of a higher kind, which is no higher kind
itself and is followed by an arrow.  So where the text ends can be told from what follows it, and
two kinds with the same text are built the same way, from the outside to the inside.
-/

namespace PolyFront

/-! ## Numbers -/

/-- The text does not go on with a digit. -/
def NoDigit (rest : List Char) : Prop := rest.takeWhile Char.isDigit = []

theorem takeWhile_toDigits {n : Nat} {rest : List Char} (h : NoDigit rest) :
    (Nat.toDigits 10 n ++ rest).takeWhile Char.isDigit = Nat.toDigits 10 n := by
  have hdigits : ∀ c ∈ Nat.toDigits 10 n, c.isDigit = true := fun c hc =>
    Nat.isDigit_of_mem_toDigits (by decide) (by decide) hc
  rw [List.takeWhile_append_of_pos hdigits, h, List.append_nil]

/-- Digits end where something else follows. -/
theorem toDigits_unique {n n' : Nat} {rest rest' : List Char} (h : NoDigit rest)
    (h' : NoDigit rest') (heq : Nat.toDigits 10 n ++ rest = Nat.toDigits 10 n' ++ rest') :
    n = n' ∧ rest = rest' := by
  have hdigits : Nat.toDigits 10 n = Nat.toDigits 10 n' := by
    rw [← takeWhile_toDigits h, heq, takeWhile_toDigits h']
  refine ⟨?_, ?_⟩
  · have hvalue := congrArg (Nat.ofDigitChars 10 · 0) hdigits
    simpa [Nat.ofDigitChars_toDigits] using hvalue
  · rw [hdigits] at heq
    exact List.append_cancel_left heq

/-- The letter and the number of a variable. -/
theorem toList_unsolvedText (id : Nat) : (unsolvedText id).toList =
    '?' :: Char.ofNat ('A'.toNat + id % 26) :: Nat.toDigits 10 (id / 26 + 1) := by
  simp [unsolvedText]

theorem letter_injective {a b : Nat}
    (h : Char.ofNat ('A'.toNat + a % 26) = Char.ofNat ('A'.toNat + b % 26)) : a % 26 = b % 26 := by
  have hvalue : ∀ n < 26, (Char.ofNat ('A'.toNat + n)).toNat = 'A'.toNat + n := by decide
  have heq := congrArg Char.toNat h
  rw [hvalue _ (Nat.mod_lt a (by decide)), hvalue _ (Nat.mod_lt b (by decide))] at heq
  exact Nat.add_left_cancel heq

/-- A variable can be told from its text. -/
theorem unsolvedText_unique {id id' : Nat} {rest rest' : List Char} (h : NoDigit rest)
    (h' : NoDigit rest')
    (heq : (unsolvedText id).toList ++ rest = (unsolvedText id').toList ++ rest') :
    id = id' ∧ rest = rest' := by
  rw [toList_unsolvedText, toList_unsolvedText] at heq
  obtain ⟨-, htail⟩ := List.cons.inj heq
  obtain ⟨hletter, hnumber⟩ := List.cons.inj htail
  obtain ⟨hdiv, hrest⟩ := toDigits_unique h h' hnumber
  have hmod := letter_injective hletter
  exact ⟨by omega, hrest⟩

namespace Kind

/-! ## The shape of a text -/

/-- What may follow the text of a kind. -/
def Stops (rest : List Char) : Prop :=
  rest = [] ∨ ∃ more, rest = ')' :: more ∨ rest = ',' :: more

def arrow : List Char := " -> ".toList

/-- The texts of the kinds that follow another one in a list. -/
def following : List Kind → List Char
  | [] => []
  | kind :: rest => ',' :: ' ' :: (kind.render.toList ++ following rest)

/-- The texts of a list of kinds. -/
def listed : List Kind → List Char
  | [] => []
  | kind :: rest => kind.render.toList ++ following rest

/-- One argument that is no higher kind. -/
def bare : List Kind → Bool
  | [arg] => !arg.isHigher
  | _ => false

theorem toList_intercalate_renderList (kinds : List Kind) :
    (", ".intercalate (renderList kinds)).toList = listed kinds := by
  cases kinds with
  | nil => rfl
  | cons kind rest =>
    induction rest generalizing kind with
    | nil => simp [renderList, listed, following]
    | cons next rest ih =>
      rw [renderList, renderList, String.intercalate_cons_cons, ← renderList, String.toList_append,
        ih]
      simp [listed, following]

theorem render_bare {arg : Kind} (h : arg.isHigher = false) (result : Kind) :
    (render (.higher [arg] result)).toList =
      arg.render.toList ++ (arrow ++ result.render.toList) := by
  simp [render, renderList, h, arrow]

theorem render_listed {args : List Kind} (h : bare args = false) (result : Kind) :
    (render (.higher args result)).toList =
      '(' :: (listed args ++ ')' :: (arrow ++ result.render.toList)) := by
  rw [← toList_intercalate_renderList]
  match args, h with
  | [], _ => simp [render, renderList, arrow]
  | [arg], h =>
    have harg : arg.isHigher = true := by simpa [bare] using h
    simp [render, renderList, harg, arrow]
  | _ :: _ :: _, _ => simp [render, renderList, arrow]

/-! ## Reading a text -/

theorem Stops.noDigit {rest : List Char} (h : Stops rest) : NoDigit rest := by
  rcases h with rfl | ⟨more, rfl | rfl⟩
  · rfl
  · rfl
  · rfl

theorem noDigit_arrow (rest : List Char) : NoDigit (arrow ++ rest) := rfl

theorem not_stops_arrow (rest : List Char) : ¬Stops (arrow ++ rest) := by
  rintro (h | ⟨more, h | h⟩)
  · cases h
  · cases h
  · cases h

theorem stops_following (kinds : List Kind) (rest : List Char) :
    Stops (following kinds ++ ')' :: rest) := by
  cases kinds with
  | nil => exact .inr ⟨rest, .inl rfl⟩
  | cons kind others => exact .inr ⟨_, .inr rfl⟩

/-- The text of a kind that is no higher kind does not begin with a parenthesis. -/
theorem exists_head_of_simple {kind : Kind} (h : kind.isHigher = false) :
    ∃ c more, kind.render.toList = c :: more ∧ c ≠ '(' ∧ c ≠ ')' := by
  cases kind with
  | type => exact ⟨'*', [], rfl, by decide, by decide⟩
  | unsolved id => exact ⟨'?', _, toList_unsolvedText id, by decide, by decide⟩
  | higher args result => cases h

theorem exists_of_bare {args : List Kind} (h : bare args = true) :
    ∃ arg, args = [arg] ∧ arg.isHigher = false := by
  match args, h with
  | [arg], h => exact ⟨arg, rfl, by simpa [bare] using h⟩

/-- No text of a kind begins with a closing parenthesis. -/
theorem exists_head (kind : Kind) : ∃ c more, kind.render.toList = c :: more ∧ c ≠ ')' := by
  cases hkind : kind.isHigher with
  | false =>
    obtain ⟨c, more, heq, -, hc⟩ := exists_head_of_simple hkind
    exact ⟨c, more, heq, hc⟩
  | true =>
    obtain ⟨args, result, rfl⟩ : ∃ args result, kind = .higher args result := by
      cases kind with
      | higher args result => exact ⟨args, result, rfl⟩
      | _ => cases hkind
    cases hbare : bare args with
    | false => exact ⟨'(', _, render_listed hbare result, by decide⟩
    | true =>
      obtain ⟨arg, rfl, harg⟩ := exists_of_bare hbare
      obtain ⟨c, more, heq, -, hc⟩ := exists_head_of_simple harg
      exact ⟨c, _, by rw [render_bare harg, heq, List.cons_append], hc⟩

/-- A kind that is no higher kind is read off before anything that is no digit. -/
theorem simple_unique {kind kind' : Kind} {rest rest' : List Char} (hsimple : kind.isHigher = false)
    (hsimple' : kind'.isHigher = false) (h : NoDigit rest) (h' : NoDigit rest')
    (heq : kind.render.toList ++ rest = kind'.render.toList ++ rest') :
    kind = kind' ∧ rest = rest' := by
  cases kind with
  | type =>
    cases kind' with
    | type => exact ⟨rfl, List.append_cancel_left heq⟩
    | unsolved id' => simp [render, toList_unsolvedText] at heq
    | higher args' result' => cases hsimple'
  | unsolved id =>
    cases kind' with
    | type => simp [render, toList_unsolvedText] at heq
    | unsolved id' =>
      obtain ⟨rfl, hrest⟩ := unsolvedText_unique h h' heq
      exact ⟨rfl, hrest⟩
    | higher args' result' => cases hsimple'
  | higher args result => cases hsimple

/-- What is read as a kind that is no higher kind is not read as a higher kind. -/
theorem simple_ne_higher {kind result : Kind} {args : List Kind} {rest rest' : List Char}
    (hsimple : kind.isHigher = false) (h : Stops rest) :
    kind.render.toList ++ rest ≠ (render (.higher args result)).toList ++ rest' := by
  intro heq
  cases hbare : bare args with
  | false =>
    obtain ⟨c, more, hhead, hc, -⟩ := exists_head_of_simple hsimple
    rw [render_listed hbare, hhead] at heq
    exact hc (List.cons.inj heq).1
  | true =>
    obtain ⟨arg, rfl, harg⟩ := exists_of_bare hbare
    rw [render_bare harg, List.append_assoc, List.append_assoc] at heq
    obtain ⟨-, hrest⟩ := simple_unique hsimple harg h.noDigit (noDigit_arrow _) heq
    exact not_stops_arrow _ (hrest ▸ h)

/-- A bare argument is not read as a list in parentheses. -/
theorem bare_ne_listed {arg : Kind} (harg : arg.isHigher = false) (more rest : List Char) :
    arg.render.toList ++ more ≠ '(' :: rest := by
  obtain ⟨c, others, hhead, hc, -⟩ := exists_head_of_simple harg
  rw [hhead]
  exact fun heq => hc (List.cons.inj heq).1

mutual
/-- A kind is read off before anything that stops it. -/
theorem render_unique (kind kind' : Kind) {rest rest' : List Char} (h : Stops rest)
    (h' : Stops rest') (heq : kind.render.toList ++ rest = kind'.render.toList ++ rest') :
    kind = kind' ∧ rest = rest' := by
  cases kind with
  | higher args result =>
    cases kind' with
    | higher args' result' =>
      cases hbare : bare args with
      | true =>
        obtain ⟨arg, rfl, harg⟩ := exists_of_bare hbare
        cases hbare' : bare args' with
        | true =>
          obtain ⟨arg', rfl, harg'⟩ := exists_of_bare hbare'
          simp only [render_bare harg, render_bare harg', List.append_assoc] at heq
          obtain ⟨rfl, htail⟩ :=
            simple_unique harg harg' (noDigit_arrow _) (noDigit_arrow _) heq
          obtain ⟨rfl, hrest⟩ := render_unique result result' h h' (List.append_cancel_left htail)
          exact ⟨rfl, hrest⟩
        | false =>
          rw [render_bare harg, render_listed hbare', List.append_assoc] at heq
          exact (bare_ne_listed harg _ _ heq).elim
      | false =>
        cases hbare' : bare args' with
        | true =>
          obtain ⟨arg', rfl, harg'⟩ := exists_of_bare hbare'
          rw [render_listed hbare, render_bare harg', List.append_assoc] at heq
          exact (bare_ne_listed harg' _ _ heq.symm).elim
        | false =>
          rw [render_listed hbare, render_listed hbare'] at heq
          simp only [List.cons_append, List.append_assoc] at heq
          obtain ⟨rfl, htail⟩ := listed_unique args args' (List.cons.inj heq).2
          obtain ⟨rfl, hrest⟩ := render_unique result result' h h' (List.append_cancel_left htail)
          exact ⟨rfl, hrest⟩
    | type => exact (simple_ne_higher rfl h' heq.symm).elim
    | unsolved id' => exact (simple_ne_higher rfl h' heq.symm).elim
  | type =>
    cases kind' with
    | higher args' result' => exact (simple_ne_higher rfl h heq).elim
    | _ => exact simple_unique rfl rfl h.noDigit h'.noDigit heq
  | unsolved id =>
    cases kind' with
    | higher args' result' => exact (simple_ne_higher rfl h heq).elim
    | _ => exact simple_unique rfl rfl h.noDigit h'.noDigit heq
/-- A list of kinds is read off before the parenthesis that closes it. -/
theorem listed_unique (kinds kinds' : List Kind) {rest rest' : List Char}
    (heq : listed kinds ++ ')' :: rest = listed kinds' ++ ')' :: rest') :
    kinds = kinds' ∧ rest = rest' := by
  cases kinds with
  | nil =>
    cases kinds' with
    | nil => exact ⟨rfl, (List.cons.inj heq).2⟩
    | cons kind' others' =>
      obtain ⟨c, more, hhead, hc⟩ := exists_head kind'
      rw [listed, listed, hhead] at heq
      exact (hc (List.cons.inj heq).1.symm).elim
  | cons kind others =>
    cases kinds' with
    | nil =>
      obtain ⟨c, more, hhead, hc⟩ := exists_head kind
      rw [listed, listed, hhead] at heq
      exact (hc (List.cons.inj heq).1).elim
    | cons kind' others' =>
      rw [listed, listed, List.append_assoc, List.append_assoc] at heq
      obtain ⟨rfl, htail⟩ :=
        render_unique kind kind' (stops_following others rest) (stops_following others' rest') heq
      obtain ⟨rfl, hrest⟩ := following_unique others others' htail
      exact ⟨rfl, hrest⟩
theorem following_unique (kinds kinds' : List Kind) {rest rest' : List Char}
    (heq : following kinds ++ ')' :: rest = following kinds' ++ ')' :: rest') :
    kinds = kinds' ∧ rest = rest' := by
  cases kinds with
  | nil =>
    cases kinds' with
    | nil => exact ⟨rfl, (List.cons.inj heq).2⟩
    | cons kind' others' => cases (List.cons.inj heq).1
  | cons kind others =>
    cases kinds' with
    | nil => cases (List.cons.inj heq).1
    | cons kind' others' =>
      simp only [following, List.cons_append, List.cons.injEq, true_and, List.append_assoc] at heq
      obtain ⟨rfl, htail⟩ :=
        render_unique kind kind' (stops_following others rest) (stops_following others' rest') heq
      obtain ⟨rfl, hrest⟩ := following_unique others others' htail
      exact ⟨rfl, hrest⟩
end

/-! ## Messages -/

/-- The parts of a message, which is not to be evaluated. -/
theorem toList_message (start first middle second : String) :
    (start ++ first ++ middle ++ second).toList =
      start.toList ++ (first.toList ++ (middle.toList ++ second.toList)) := by
  simp only [String.toList_append, List.append_assoc]

theorem stops_actual (rest : List Char) : Stops (", Actual: ".toList ++ rest) := by
  have hcomma : ", Actual: ".toList = ',' :: " Actual: ".toList := by decide
  rw [hcomma]
  exact .inr ⟨_, .inr rfl⟩

/-- Two kinds are read off a message that begins in a known way. -/
theorem mismatch_unique {start : String} {expected expected' actual actual' : Kind}
    (heq : start ++ expected.render ++ ", Actual: " ++ actual.render =
      start ++ expected'.render ++ ", Actual: " ++ actual'.render) :
    expected = expected' ∧ actual = actual' := by
  have hall := congrArg String.toList heq
  rw [toList_message, toList_message] at hall
  obtain ⟨rfl, htail⟩ := render_unique expected expected' (stops_actual _) (stops_actual _)
    (List.append_cancel_left hall)
  have hactual : actual.render.toList ++ [] = actual'.render.toList ++ [] := by
    rw [List.append_cancel_left htail]
  exact ⟨rfl, (render_unique actual actual' (.inl rfl) (.inl rfl) hactual).1⟩

theorem append_ne {start s t more more' : List Char} {c d : Char} (hs : s = start ++ c :: more)
    (ht : t = start ++ d :: more') (hne : c ≠ d) (rest rest' : List Char) :
    s ++ rest ≠ t ++ rest' := by
  subst hs ht
  rw [List.append_assoc, List.append_assoc]
  exact fun heq => hne (List.cons.inj (List.append_cancel_left heq)).1

/-- The messages of the two sorts of mismatches begin differently. -/
theorem message_ne (expected expected' actual actual' : Kind) :
    (KindError.mismatch expected actual).message ≠
      (KindError.mismatchedApplication expected' actual').message := by
  intro heq
  have hall := congrArg String.toList heq
  have hkind : "Mismatched kind! Expected: ".toList =
      "Mismatched ".toList ++ 'k' :: "ind! Expected: ".toList := by decide
  have happlication : "Mismatched type application! Expected: ".toList =
      "Mismatched ".toList ++ 't' :: "ype application! Expected: ".toList := by decide
  -- The messages are opened by their equations: a rewrite would compare the literals.
  have hleft : (KindError.mismatch expected actual).message.toList = _ := toList_message _ _ _ _
  have hright : (KindError.mismatchedApplication expected' actual').message.toList = _ :=
    toList_message _ _ _ _
  rw [hleft] at hall
  rw [hright] at hall
  exact append_ne hkind happlication (by decide) _ _ hall

/-- The text of a kind is unambiguous: different kinds have different texts, and the message of a
mismatch tells which kinds were expected and found. -/
theorem render_unambiguous :
    Function.Injective Kind.render ∧ Function.Injective KindError.message := by
  constructor
  · intro kind kind' heq
    have htexts : kind.render.toList ++ [] = kind'.render.toList ++ [] := by rw [heq]
    exact (render_unique kind kind' (.inl rfl) (.inl rfl) htexts).1
  · intro error error' heq
    cases error with
    | mismatch expected actual =>
      cases error' with
      | mismatch expected' actual' =>
        obtain ⟨rfl, rfl⟩ := mismatch_unique heq
        rfl
      | mismatchedApplication expected' actual' =>
        exact (message_ne expected expected' actual actual' heq).elim
    | mismatchedApplication expected actual =>
      cases error' with
      | mismatch expected' actual' =>
        exact (message_ne expected' expected actual' actual heq.symm).elim
      | mismatchedApplication expected' actual' =>
        obtain ⟨rfl, rfl⟩ := mismatch_unique heq
        rfl

end Kind

end PolyFront
