import Mathlib.Data.Int.ModEq
import PolyFront.Constant.Fold

/-!
# Folding of integers

Both integer types fold like the numbers that their words stand for in two's complement, and
reduce the result to a number that a word can stand for.  What a word stands for is read off its
bits, so that every operator is described once for bits of any width and then found again in
either type.
-/

namespace PolyFront

namespace Fold

/-! ## Bits -/

section Bits

variable {width : Nat}

/-- The number that the bits stand for without a sign. -/
theorem toNat_eq_emod (x : BitVec width) : (x.toNat : Int) = x.toInt % (2 ^ width : Nat) := by
  rw [BitVec.toInt_eq_toNat_bmod, Int.bmod_emod]
  exact (Int.emod_eq_of_lt (Int.natCast_nonneg _) (by exact_mod_cast x.isLt)).symm

theorem toInt_shiftLeft_eq (x : BitVec width) (s : Nat) :
    (x <<< s).toInt = (x.toInt * 2 ^ s).bmod (2 ^ width) := by
  rw [BitVec.toInt_shiftLeft, Nat.shiftLeft_eq, BitVec.toInt_eq_toNat_bmod]
  push_cast
  simp

/-- Shifting to the right rounds down. -/
theorem toInt_sshiftRight_eq (x : BitVec width) (s : Nat) :
    (x.sshiftRight s).toInt = x.toInt / 2 ^ s := by
  rw [BitVec.toInt_sshiftRight, Int.shiftRight_eq_div_pow]
  norm_cast

theorem toInt_ushiftRight_eq (x : BitVec width) (s : Nat) :
    (x >>> s).toInt = (x.toInt % 2 ^ width / 2 ^ s).bmod (2 ^ width) := by
  have hbits := toNat_eq_emod x
  push_cast at hbits
  rw [BitVec.toInt_eq_toNat_bmod, BitVec.toNat_ushiftRight, Nat.shiftRight_eq_div_pow, ← hbits]
  push_cast
  rfl

theorem toInt_not_eq (hwidth : 0 < width) (x : BitVec width) :
    (~~~x).toInt = -x.toInt - 1 := by
  have hlt := x.isLt
  have heven : 2 ^ width = 2 * 2 ^ (width - 1) := by
    rw [← Nat.pow_succ', Nat.succ_eq_add_one, Nat.sub_add_cancel hwidth]
  rw [BitVec.toInt_eq_toNat_cond, BitVec.toInt_eq_toNat_cond, BitVec.toNat_not]
  split <;> split <;> omega

/-- An amount that is reduced without its sign. -/
theorem toNat_mod {x : BitVec width} {m : Nat} (hm : m ∣ 2 ^ width) :
    x.toNat % m = (x.toInt % m).toNat := by
  have hdvd : (m : Int) ∣ (2 ^ width : Nat) := Int.natCast_dvd_natCast.2 hm
  have hbits : x.toInt % m = (x.toNat : Int) % m := by
    rw [toNat_eq_emod, Int.emod_emod_of_dvd _ hdvd]
  rw [hbits]
  rfl

/-- An amount that is reduced with its sign. -/
theorem toNat_smod {x : BitVec width} {m : Nat} (hpos : 0 < m) (hm : 2 * m < 2 ^ width) :
    (x.smod (BitVec.ofNat width m)).toNat = (x.toInt % m).toNat := by
  have hmod : (BitVec.ofNat width m).toInt = m := by
    rw [BitVec.toInt_ofNat']
    refine Int.bmod_eq_of_le_mul_two ?_ ?_
    all_goals omega
  have hvalue : (x.smod (BitVec.ofNat width m)).toInt = x.toInt % m := by
    rw [BitVec.toInt_smod, hmod, Int.fmod_eq_emod_of_nonneg _ (Int.natCast_nonneg m)]
  have hnonneg : 0 ≤ x.toInt % m := Int.emod_nonneg _ (by omega)
  have hlt := (x.smod (BitVec.ofNat width m)).isLt
  rw [← hvalue] at hnonneg ⊢
  rw [BitVec.toInt_eq_toNat_cond] at hnonneg ⊢
  split <;> omega

end Bits

/-! ## Powers -/

theorem pow_bmod (x : Int) (m k : Nat) : (x.bmod m ^ k).bmod m = (x ^ k).bmod m := by
  induction k with
  | zero => rw [pow_zero, pow_zero]
  | succ k ih =>
    rw [pow_succ, pow_succ, Int.mul_bmod_bmod, ← Int.bmod_mul_bmod, ih, Int.bmod_mul_bmod]

/-- Repeated squaring gives the power, reduced by what every product is reduced by. -/
theorem power_eq_bmod {α : Type} [Mul α] [OfNat α 1] (value : α → Int) {m : Nat}
    (hone : value 1 = Int.bmod 1 m) (hmul : ∀ a b, value (a * b) = (value a * value b).bmod m)
    (base : α) (exponent : Nat) : value (power base exponent) = (value base ^ exponent).bmod m := by
  induction base, exponent using power.induct with
  | case1 base => rw [power, if_pos rfl, hone, pow_zero]
  | case2 base exponent hpos hodd ih =>
    have hhalf : exponent = 2 * (exponent / 2) + 1 := by omega
    rw [power, if_neg hpos, if_pos hodd, hmul, ih, hmul, pow_bmod, Int.mul_bmod_bmod, ← pow_two,
      ← pow_mul, ← pow_succ', ← hhalf]
  | case3 base exponent hpos heven ih =>
    have hhalf : exponent = 2 * (exponent / 2) := by omega
    rw [power, if_neg hpos, if_neg heven, ih, hmul, pow_bmod, ← pow_two, ← pow_mul, ← hhalf]

/-! ## Integer types -/

/-- A type of integer literals, whose words are made of bits. -/
structure IntegerType where
  Word : Type
  width : Nat
  bits : Word → BitVec width
  literal : Word → Literal

namespace IntegerType

def int : IntegerType := ⟨Int32, 32, Int32.toBitVec, .int⟩

def long : IntegerType := ⟨Int64, 64, Int64.toBitVec, .long⟩

variable (type : IntegerType)

/-- The number that a word stands for in two's complement. -/
def value (word : type.Word) : Int := (type.bits word).toInt

/-- The number from `-2 ^ (width - 1)` to below `2 ^ (width - 1)` that differs by a multiple of
`2 ^ width`. -/
def wrap (n : Int) : Int := n.bmod (2 ^ type.width)

/-- The result is the constant that is made of the bits. -/
def HasBits (result : Lattice) (bits : BitVec type.width) : Prop :=
  ∃ word, result = .constant (type.literal word) ∧ type.bits word = bits

/-- The result is the constant that stands for the number. -/
def HasValue (result : Lattice) (n : Int) : Prop :=
  ∃ word, result = .constant (type.literal word) ∧ type.value word = n

/-- How far a word is shifted by an amount. -/
def shift (amount : Int32) : Nat := (amount.toInt % type.width).toNat

/-- The result is the quotient or remainder, and there is none when the divisor is zero. -/
def Divides (result : Lattice) (divisor n : Int) : Prop :=
  (result = .unassigned ↔ divisor = 0) ∧ (divisor ≠ 0 → type.HasValue result n)

/-- The result is the power, and no constant when the exponent is no number of 32 bits without
sign. -/
def Raises (result : Lattice) (exponent n : Int) : Prop :=
  (result = .nonConstant ↔ ¬(0 ≤ exponent ∧ exponent < 2 ^ 32)) ∧
    (0 ≤ exponent ∧ exponent < 2 ^ 32 → type.HasValue result n)

/-- Operators on words fold to what they do to the numbers that the words stand for. -/
structure Exact : Prop where
  add l r : type.HasValue (binary (type.literal l) .add (type.literal r))
    (type.wrap (type.value l + type.value r))
  subtract l r : type.HasValue (binary (type.literal l) .subtract (type.literal r))
    (type.wrap (type.value l - type.value r))
  multiply l r : type.HasValue (binary (type.literal l) .multiply (type.literal r))
    (type.wrap (type.value l * type.value r))
  divide l r : type.Divides (binary (type.literal l) .divide (type.literal r)) (type.value r)
    (type.wrap ((type.value l).tdiv (type.value r)))
  modulus l r : type.Divides (binary (type.literal l) .modulus (type.literal r)) (type.value r)
    ((type.value l).tmod (type.value r))
  power l r : type.Raises (binary (type.literal l) .power (type.literal r)) (type.value r)
    (type.wrap (type.value l ^ (type.value r).toNat))
  shiftLeft l amount : type.HasValue (binary (type.literal l) .shiftLeft (.int amount))
    (type.wrap (type.value l * 2 ^ type.shift amount))
  /-- The quotient is rounded down. -/
  shiftRight l amount : type.HasValue (binary (type.literal l) .shiftRight (.int amount))
    (type.value l / 2 ^ type.shift amount)
  unsignedShiftRight l amount :
    type.HasValue (binary (type.literal l) .unsignedShiftRight (.int amount))
      (type.wrap (type.value l % 2 ^ type.width / 2 ^ type.shift amount))
  bitwiseAnd l r : type.HasBits (binary (type.literal l) .bitwiseAnd (type.literal r))
    (type.bits l &&& type.bits r)
  bitwiseOr l r : type.HasBits (binary (type.literal l) .bitwiseOr (type.literal r))
    (type.bits l ||| type.bits r)
  bitwiseXor l r : type.HasBits (binary (type.literal l) .bitwiseXor (type.literal r))
    (type.bits l ^^^ type.bits r)
  lessThan l r : binary (type.literal l) .lessThan (type.literal r) =
    .constant (.boolean (type.value l < type.value r))
  lessThanEqual l r : binary (type.literal l) .lessThanEqual (type.literal r) =
    .constant (.boolean (type.value l ≤ type.value r))
  greaterThan l r : binary (type.literal l) .greaterThan (type.literal r) =
    .constant (.boolean (type.value l > type.value r))
  greaterThanEqual l r : binary (type.literal l) .greaterThanEqual (type.literal r) =
    .constant (.boolean (type.value l ≥ type.value r))
  equal l r : binary (type.literal l) .equal (type.literal r) =
    .constant (.boolean (type.value l = type.value r))
  notEqual l r : binary (type.literal l) .notEqual (type.literal r) =
    .constant (.boolean (type.value l ≠ type.value r))
  negate l : type.HasValue (unary .negate (type.literal l)) (type.wrap (-type.value l))
  bitwiseNot l : type.HasValue (unary .bitwiseNot (type.literal l)) (-type.value l - 1)

/-! ## Operators -/

theorem toNat_smod_int (amount : Int32) : (amount.toBitVec.smod 32).toNat = int.shift amount :=
  toNat_smod (by decide) (by decide)

theorem toNat_smod_long (amount : Int32) :
    (amount.toInt64.toBitVec.smod 64).toNat = long.shift amount := by
  have hvalue : amount.toInt64.toBitVec.toInt = amount.toInt := Int32.toInt_toInt64 amount
  rw [shift, ← hvalue]
  exact toNat_smod (by decide) (by decide)

theorem toNat_mod_int (amount : Int32) : amount.toBitVec.toNat % 32 = int.shift amount :=
  toNat_mod (by decide)

theorem toNat_mod_long (amount : Int32) :
    amount.toInt64.toBitVec.toNat % 64 = long.shift amount := by
  have hvalue : amount.toInt64.toBitVec.toInt = amount.toInt := Int32.toInt_toInt64 amount
  rw [shift, ← hvalue]
  exact toNat_mod (by decide)

variable {type} {r : type.Word} {n : Int}

/-- A division that is guarded against zero. -/
theorem divides_guarded {zero : Prop} [Decidable zero] {quotient : type.Word}
    (hzero : zero ↔ type.value r = 0) (hquotient : type.value quotient = n) :
    type.Divides (((if zero then none else some quotient).map fun word =>
      Lattice.constant (type.literal word)).getD .unassigned) (type.value r) n := by
  by_cases h : zero
  · rw [if_pos h]
    exact ⟨iff_of_true rfl (hzero.1 h), fun hne => (hne (hzero.1 h)).elim⟩
  · rw [if_neg h]
    exact ⟨iff_of_false nofun fun heq => h (hzero.2 heq), fun _ => ⟨quotient, rfl, hquotient⟩⟩

/-- A power whose exponent is checked first. -/
theorem raises_ranged {power : Nat → type.Word} {base exponent : Int}
    (hpower : ∀ k, type.value (power k) = type.wrap (base ^ k)) :
    type.Raises (((exponent? exponent).map fun k =>
      Lattice.constant (type.literal (power k))).getD .nonConstant) exponent
      (type.wrap (base ^ exponent.toNat)) := by
  by_cases h : 0 ≤ exponent ∧ exponent < 2 ^ 32
  · have hfits : exponent? exponent = some exponent.toNat := by simpa [exponent?] using h
    rw [hfits]
    exact ⟨iff_of_false nofun fun hnot => hnot h, fun _ => ⟨_, rfl, hpower exponent.toNat⟩⟩
  · have hfits : exponent? exponent = none := by simpa [exponent?] using h
    rw [hfits]
    exact ⟨iff_of_true rfl h, fun hin => (h hin).elim⟩

theorem equal_of_iff {l : type.Word}
    (hiff : type.literal l = type.literal r ↔ type.value l = type.value r) :
    binary (type.literal l) .equal (type.literal r) =
        .constant (.boolean (type.value l = type.value r)) ∧
      binary (type.literal l) .notEqual (type.literal r) =
        .constant (.boolean (type.value l ≠ type.value r)) := by
  rw [binary, binary, bne, beq_eq_decide, decide_eq_decide.2 hiff, decide_not]
  exact ⟨rfl, rfl⟩

theorem literal_int_iff (l r : Int32) : Literal.int l = .int r ↔ l.toInt = r.toInt := by
  rw [Literal.int.injEq, Int32.toInt_inj]

theorem literal_long_iff (l r : Int64) : Literal.long l = .long r ↔ l.toInt = r.toInt := by
  rw [Literal.long.injEq, Int64.toInt_inj]

theorem value_power_int (base : Int32) (k : Nat) :
    (Fold.power base k).toInt = int.wrap (base.toInt ^ k) :=
  power_eq_bmod Int32.toInt rfl Int32.toInt_mul base k

theorem value_power_long (base : Int64) (k : Nat) :
    (Fold.power base k).toInt = long.wrap (base.toInt ^ k) :=
  power_eq_bmod Int64.toInt rfl Int64.toInt_mul base k

theorem int_exact : int.Exact where
  add (l r : Int32) := ⟨l + r, rfl, BitVec.toInt_add _ _⟩
  subtract (l r : Int32) := ⟨l - r, rfl, BitVec.toInt_sub⟩
  multiply (l r : Int32) := ⟨l * r, rfl, BitVec.toInt_mul _ _⟩
  divide (l r : Int32) := divides_guarded Int32.toInt_inj.symm (BitVec.toInt_sdiv _ _)
  modulus (l r : Int32) := divides_guarded Int32.toInt_inj.symm (BitVec.toInt_srem _ _)
  power (l r : Int32) := raises_ranged (value_power_int l)
  shiftLeft (l amount : Int32) := by
    refine ⟨l <<< amount, rfl, ?_⟩
    rw [← toNat_smod_int]
    exact toInt_shiftLeft_eq _ _
  shiftRight (l amount : Int32) := by
    refine ⟨l >>> amount, rfl, ?_⟩
    rw [← toNat_smod_int]
    exact toInt_sshiftRight_eq _ _
  unsignedShiftRight (l amount : Int32) := by
    refine ⟨(l.toUInt32 >>> amount.toUInt32).toInt32, rfl, ?_⟩
    rw [← toNat_mod_int]
    exact toInt_ushiftRight_eq _ _
  bitwiseAnd (l r : Int32) := ⟨l &&& r, rfl, rfl⟩
  bitwiseOr (l r : Int32) := ⟨l ||| r, rfl, rfl⟩
  bitwiseXor (l r : Int32) := ⟨l ^^^ r, rfl, rfl⟩
  lessThan _ _ := rfl
  lessThanEqual _ _ := rfl
  greaterThan _ _ := rfl
  greaterThanEqual _ _ := rfl
  equal l r := (equal_of_iff (literal_int_iff l r)).1
  notEqual l r := (equal_of_iff (literal_int_iff l r)).2
  negate (l : Int32) := ⟨-l, rfl, BitVec.toInt_neg⟩
  bitwiseNot (l : Int32) := ⟨(~~~l : Int32), rfl, toInt_not_eq (by decide) l.toBitVec⟩

theorem long_exact : long.Exact where
  add (l r : Int64) := ⟨l + r, rfl, BitVec.toInt_add _ _⟩
  subtract (l r : Int64) := ⟨l - r, rfl, BitVec.toInt_sub⟩
  multiply (l r : Int64) := ⟨l * r, rfl, BitVec.toInt_mul _ _⟩
  divide (l r : Int64) := divides_guarded Int64.toInt_inj.symm (BitVec.toInt_sdiv _ _)
  modulus (l r : Int64) := divides_guarded Int64.toInt_inj.symm (BitVec.toInt_srem _ _)
  power (l r : Int64) := raises_ranged (value_power_long l)
  shiftLeft (l : Int64) (amount : Int32) := by
    refine ⟨l <<< amount.toInt64, rfl, ?_⟩
    rw [← toNat_smod_long]
    exact toInt_shiftLeft_eq _ _
  shiftRight (l : Int64) (amount : Int32) := by
    refine ⟨l >>> amount.toInt64, rfl, ?_⟩
    rw [← toNat_smod_long]
    exact toInt_sshiftRight_eq _ _
  unsignedShiftRight (l : Int64) (amount : Int32) := by
    refine ⟨(l.toUInt64 >>> amount.toInt64.toUInt64).toInt64, rfl, ?_⟩
    rw [← toNat_mod_long]
    exact toInt_ushiftRight_eq _ _
  bitwiseAnd (l r : Int64) := ⟨l &&& r, rfl, rfl⟩
  bitwiseOr (l r : Int64) := ⟨l ||| r, rfl, rfl⟩
  bitwiseXor (l r : Int64) := ⟨l ^^^ r, rfl, rfl⟩
  lessThan _ _ := rfl
  lessThanEqual _ _ := rfl
  greaterThan _ _ := rfl
  greaterThanEqual _ _ := rfl
  equal l r := (equal_of_iff (literal_long_iff l r)).1
  notEqual l r := (equal_of_iff (literal_long_iff l r)).2
  negate (l : Int64) := ⟨-l, rfl, BitVec.toInt_neg⟩
  bitwiseNot (l : Int64) := ⟨(~~~l : Int64), rfl, toInt_not_eq (by decide) l.toBitVec⟩

end IntegerType

/-- Folding of integers is exact arithmetic in two's complement, for words of 32 and of 64 bits. -/
theorem integers_exact : IntegerType.int.Exact ∧ IntegerType.long.Exact :=
  ⟨IntegerType.int_exact, IntegerType.long_exact⟩

end Fold

end PolyFront
