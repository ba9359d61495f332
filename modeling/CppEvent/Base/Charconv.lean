import CppEvent.Library.Numeral
import CppEvent.Base.Util

/-!
# `<charconv>`

`std::from_chars` and `std::to_chars` on integers, as the program uses them: into a `long` in any base,
and into any integral type in base 10.
-/

namespace CppEvent

def digitValue (c : Byte) : Option Nat :=
  if 48 ≤ c ∧ c ≤ 57 then some (c.toNat - 48)
  else if 97 ≤ c ∧ c ≤ 102 then some (c.toNat - 87)
  else if 65 ≤ c ∧ c ≤ 70 then some (c.toNat - 55)
  else none

def digit (base : Nat) (c : Byte) : Option Nat := (digitValue c).filter (· < base)

/-- What `std::from_chars` reports: `errc::invalid_argument`, `errc::result_out_of_range`, or the
value with the part of the text after `result.ptr`. -/
inductive FromChars where
  | invalidArgument
  | resultOutOfRange
  | ok (value : Int) (rest : Bytes)
  deriving DecidableEq, Repr

/-- An integral type, of up to 128 bits. -/
structure IntegralType where
  bits : Nat
  isSigned : Bool
  le_bits : 1 ≤ bits
  bits_le : bits ≤ 128
  deriving DecidableEq

namespace IntegralType

def low (t : IntegralType) : Int := if t.isSigned then -2 ^ (t.bits - 1) else 0

/-- One more than the greatest value. -/
def high (t : IntegralType) : Int := if t.isSigned then 2 ^ (t.bits - 1) else 2 ^ t.bits

def Holds (t : IntegralType) (z : Int) : Prop := t.low ≤ z ∧ z < t.high

instance (t : IntegralType) (z : Int) : Decidable (t.Holds z) :=
  inferInstanceAs (Decidable (_ ∧ _))

def int : IntegralType where
  bits := 32
  isSigned := true
  le_bits := by omega
  bits_le := by omega

def long : IntegralType where
  bits := 64
  isSigned := true
  le_bits := by omega
  bits_le := by omega

theorem abs_lt_of_holds {t : IntegralType} {z : Int} (h : t.Holds z) : z.natAbs < 10 ^ 39 := by
  have hlt : ∀ k ≤ 128, (2 : Int) ^ k ≤ 2 ^ 128 := fun k hk =>
    pow_le_pow_right₀ (by omega) hk
  have hpow := hlt t.bits t.bits_le
  have hpow' := hlt (t.bits - 1) (by have := t.bits_le; omega)
  rw [Holds, low, high] at h
  split at h <;> omega

theorem nonneg_of_holds {t : IntegralType} {z : Int} (h : t.Holds z) (ht : t.isSigned = false) :
    0 ≤ z := by
  rw [Holds, low, ht, if_neg Bool.false_ne_true] at h
  exact h.1

theorem holds_long {z : Int} : long.Holds z ↔ -2 ^ 63 ≤ z ∧ z < 2 ^ 63 := Iff.rfl

end IntegralType

/-- The digits of `std::from_chars` into `t`, of which there must be one; `sign` is `1` or `-1`. -/
def fromDigits (t : IntegralType) (base : Nat) (sign : Int) (s : Bytes) : FromChars :=
  match s with
  | [] => .invalidArgument
  | c :: _ =>
      if (digit base c).isNone then .invalidArgument
      else
        let (n, rest) := Numeral.leading (digit base) base 0 s
        if t.Holds (sign * n) then .ok (sign * n) rest else .resultOutOfRange

/-- `std::from_chars` into `t`; an unsigned type has no minus sign. -/
def fromCharsIn (t : IntegralType) (base : Nat) (s : Bytes) : FromChars :=
  match s with
  | 45 :: rest => if t.isSigned then fromDigits t base (-1) rest else .invalidArgument
  | _ => fromDigits t base 1 s

/-- Into a `long`. -/
def fromChars (base : Nat) (s : Bytes) : FromChars := fromCharsIn .long base s

/-- In base 10, the default. -/
def fromCharsAs (t : IntegralType) (s : Bytes) : FromChars := fromCharsIn t 10 s

theorem ne_minus_of_isSome_digit {base : Nat} {c : Byte} (h : (digit base c).isSome) : c ≠ 45 := by
  rintro rfl
  simp [digit, digitValue] at h

theorem fromChars_numeral {base : Nat} {text rest : Bytes}
    (htext : Numeral.IsNumeral (digit base) text) (hrest : Numeral.Stops (digit base) rest)
    (hlt : Numeral.value (digit base) base text < 2 ^ 63) :
    fromChars base (text ++ rest) = .ok (Numeral.value (digit base) base text) rest := by
  obtain ⟨hne, hdigits⟩ := htext
  cases text with
  | nil => exact absurd rfl hne
  | cons c cs =>
    have hc : (digit base c).isSome := hdigits c (by simp)
    have hfrom : fromChars base (c :: cs ++ rest) = fromDigits .long base 1 (c :: cs ++ rest) := by
      rw [fromChars, fromCharsIn.eq_2]
      intro t ht
      exact ne_minus_of_isSome_digit hc (List.cons.inj ht).1
    have hnone : ¬ (digit base c).isNone := by simp [Option.isSome_iff_ne_none.mp hc]
    rw [hfrom, List.cons_append, fromDigits, if_neg hnone, ← List.cons_append,
      Numeral.leading_append hdigits hrest, ← Numeral.value]
    simp only [one_mul]
    rw [if_pos (IntegralType.holds_long.mpr (by omega))]

/-- `std::to_chars` of a value that is not negative. -/
def toChars (base n : Nat) : Bytes := (Nat.toDigits base n).map Char.toUInt8

theorem digit_digitChar {base d : Nat} (hd : d < base) (hbase : base ≤ 16) :
    digit base (Nat.digitChar d).toUInt8 = some d := by
  have hvalue : ∀ d < 16, digitValue (Nat.digitChar d).toUInt8 = some d := by decide
  rw [digit, hvalue d (by omega), Option.filter_some, if_pos (decide_eq_true hd)]

theorem toChars_numeral {base : Nat} (hlow : 1 < base) (hhigh : base ≤ 16) (n : Nat) :
    Numeral.IsNumeral (digit base) (toChars base n) ∧
      Numeral.value (digit base) base (toChars base n) = n := by
  induction n using Nat.strong_induction_on with
  | _ n ih =>
    rw [toChars, Nat.toDigits_eq_if hlow]
    by_cases hlt : n < base
    · have hdigit := digit_digitChar hlt hhigh
      rw [if_pos hlt, List.map_singleton]
      refine ⟨⟨List.cons_ne_nil _ _, fun c hc => ?_⟩, ?_⟩
      · rw [List.mem_singleton.mp hc, hdigit]
        rfl
      · rw [Numeral.value, Numeral.leading, hdigit]
        simp [Numeral.leading]
    · have hmod : n % base < base := Nat.mod_lt n (by omega)
      have hdigit := digit_digitChar hmod hhigh
      obtain ⟨⟨hne, hdigits⟩, hvalue⟩ := ih (n / base) (Nat.div_lt_self (by omega) hlow)
      rw [if_neg hlt, List.map_append, List.map_singleton, ← toChars]
      refine ⟨⟨by simp, fun c hc => ?_⟩, ?_⟩
      · rcases List.mem_append.mp hc with hc | hc
        · exact hdigits c hc
        · rw [List.mem_singleton.mp hc, hdigit]
          rfl
      · rw [Numeral.value_concat hdigits hdigit, hvalue, Nat.mul_comm]
        exact Nat.div_add_mod n base

def toCharsInt (z : Int) : Bytes :=
  if z < 0 then 45 :: toChars 10 z.natAbs else toChars 10 z.natAbs

theorem length_toChars_le {n k : Nat} (hk : 1 ≤ k) (hn : n < 10 ^ k) :
    (toChars 10 n).length ≤ k := by
  induction k generalizing n with
  | zero => omega
  | succ k ih =>
    rw [toChars, Nat.toDigits_eq_if (by omega)]
    by_cases hlt : n < 10
    · rw [if_pos hlt]
      exact Nat.le_add_left 1 k
    · rw [if_neg hlt, List.map_append, List.length_append, ← toChars]
      have hk' : 1 ≤ k := by
        rcases k with _ | k
        · rw [Nat.pow_one] at hn
          omega
        · omega
      have hdiv : n / 10 < 10 ^ k := by
        rw [Nat.pow_succ] at hn
        omega
      have := ih hk' hdiv
      simp only [List.map_cons, List.map_nil, List.length_cons, List.length_nil]
      omega

theorem length_toCharsInt_le {t : IntegralType} {z : Int} (h : t.Holds z) :
    (toCharsInt z).length ≤ 40 := by
  have hlength := length_toChars_le (by omega) (IntegralType.abs_lt_of_holds h)
  rw [toCharsInt]
  split
  · rw [List.length_cons]
    omega
  · omega

theorem fromDigits_toChars {t : IntegralType} {sign : Int} {n : Nat} (h : t.Holds (sign * n)) :
    fromDigits t 10 sign (toChars 10 n) = .ok (sign * n) [] := by
  obtain ⟨⟨hne, hdigits⟩, hvalue⟩ := @toChars_numeral 10 (by omega) (by omega) n
  have hleading : Numeral.leading (digit 10) 10 0 (toChars 10 n) = (n, []) := by
    have := @Numeral.leading_append _ (digit 10) 10 (toChars 10 n) [] hdigits
      (fun c hc => by cases hc) 0
    rwa [List.append_nil, ← Numeral.value, hvalue] at this
  cases hc : toChars 10 n with
  | nil => exact absurd hc hne
  | cons c cs =>
    have hnone : ¬ (digit 10 c).isNone := by
      have := hdigits c (by rw [hc]; exact List.mem_cons_self)
      simp [Option.isSome_iff_ne_none.mp this]
    rw [hc] at hleading
    rw [fromDigits, if_neg hnone, hleading]
    simp only [if_pos h]

/-- What `std::to_chars` writes `std::from_chars` reads, whatever the type. -/
theorem fromCharsAs_toCharsInt {t : IntegralType} {z : Int} (h : t.Holds z) :
    fromCharsAs t (toCharsInt z) = .ok z [] := by
  by_cases hneg : z < 0
  · have hsigned : t.isSigned = true := by
      by_contra hs
      have := IntegralType.nonneg_of_holds h (by simpa using hs)
      omega
    have habs : -1 * (z.natAbs : Int) = z := by omega
    rw [toCharsInt, if_pos hneg, fromCharsAs, fromCharsIn, if_pos hsigned, fromDigits_toChars (by rwa [habs]),
      habs]
  · have habs : 1 * (z.natAbs : Int) = z := by omega
    rw [toCharsInt, if_neg hneg, fromCharsAs, fromCharsIn.eq_2, fromDigits_toChars (by rwa [habs]), habs]
    intro rest hrest
    have hdigits := (@toChars_numeral 10 (by omega) (by omega) z.natAbs).1.2
    exact ne_minus_of_isSome_digit (hdigits 45 (by rw [hrest]; exact List.mem_cons_self)) rfl

/-! ## What is read -/

/-- What is read is the longest numeral at the front, if the type holds its value. -/
theorem fromDigits_eq_ok_iff {t : IntegralType} {base : Nat} {sign z : Int} {s rest : Bytes} :
    fromDigits t base sign s = .ok z rest ↔ ∃ text, s = text ++ rest ∧
      Numeral.IsNumeral (digit base) text ∧ Numeral.Stops (digit base) rest ∧
      z = sign * Numeral.value (digit base) base text ∧ t.Holds z := by
  have hread : fromDigits t base sign s = .ok z rest ↔
      ∃ n, ((∃ c ∈ s.head?, (digit base c).isSome) ∧
        Numeral.leading (digit base) base 0 s = (n, rest)) ∧ z = sign * n ∧ t.Holds z := by
    cases s with
    | nil => simp [fromDigits]
    | cons c cs =>
      rw [fromDigits]
      by_cases hc : (digit base c).isNone
      · rw [if_pos hc]
        simp_all
      · have hsome : ∃ x ∈ (c :: cs).head?, (digit base x).isSome := by
          refine ⟨c, rfl, ?_⟩
          rw [Option.isSome_iff_ne_none]
          simpa using hc
        rw [if_neg hc]
        simp only [hsome, true_and]
        rcases Numeral.leading (digit base) base 0 (c :: cs) with ⟨n, more⟩
        simp only
        constructor
        · intro h
          split at h
          · rename_i hholds
            obtain ⟨rfl, rfl⟩ := FromChars.ok.inj h
            exact ⟨n, rfl, rfl, hholds⟩
          · cases h
        · rintro ⟨n', hn, rfl, hholds⟩
          obtain ⟨rfl, rfl⟩ := Prod.mk.inj hn
          rw [if_pos hholds]
  rw [hread]
  simp only [Numeral.leading_eq_iff]
  constructor
  · rintro ⟨n, ⟨text, hs, htext, hrest, rfl⟩, hz⟩
    exact ⟨text, hs, htext, hrest, hz⟩
  · rintro ⟨text, hs, htext, hrest, hz⟩
    exact ⟨_, ⟨text, hs, htext, hrest, rfl⟩, hz⟩

/-- A numeral in `base` of the value `z`, with a minus sign or without a sign. -/
def Denotes (base : Nat) (text : Bytes) (z : Int) : Prop :=
  (Numeral.IsNumeral (digit base) text ∧ z = Numeral.value (digit base) base text) ∨
    ∃ digits, text = 45 :: digits ∧ Numeral.IsNumeral (digit base) digits ∧
      z = -Numeral.value (digit base) base digits

theorem Denotes.ne_nil {base : Nat} {text : Bytes} {z : Int} (h : Denotes base text z) :
    text ≠ [] := by
  rcases h with ⟨htext, -⟩ | ⟨digits, rfl, -⟩
  · exact htext.1
  · exact List.cons_ne_nil _ _

theorem Denotes.isSome_of_mem_tail {base : Nat} {text : Bytes} {z : Int} (h : Denotes base text z) :
    ∀ c ∈ text.tail, (digit base c).isSome := by
  intro c hc
  rcases h with ⟨htext, -⟩ | ⟨digits, rfl, hdigits, -⟩
  · exact htext.2 c (List.mem_of_mem_tail hc)
  · exact hdigits.2 c hc

theorem Denotes.rest_eq_nil {base : Nat} {text rest : Bytes} {z z' : Int}
    (h : Denotes base (text ++ rest) z) (htext : Denotes base text z')
    (hrest : Numeral.Stops (digit base) rest) : rest = [] := by
  cases rest with
  | nil => rfl
  | cons c rest =>
    have hmem : c ∈ (text ++ c :: rest).tail := by
      rw [List.tail_append_of_ne_nil htext.ne_nil]
      exact List.mem_append_right _ List.mem_cons_self
    have hdigit := h.isSome_of_mem_tail c hmem
    rw [hrest c rfl] at hdigit
    cases hdigit

theorem fromCharsIn_eq_ok_iff {t : IntegralType} {base : Nat} {z : Int} {s rest : Bytes} :
    fromCharsIn t base s = .ok z rest ↔ ∃ text, s = text ++ rest ∧ Denotes base text z ∧
      (t.isSigned ∨ text.head? ≠ some 45) ∧ Numeral.Stops (digit base) rest ∧ t.Holds z := by
  unfold fromCharsIn
  split
  · rename_i s'
    constructor
    · intro h
      split at h
      · rename_i hsigned
        obtain ⟨digits, rfl, hdigits, hrest, rfl, hz⟩ := fromDigits_eq_ok_iff.mp h
        exact ⟨45 :: digits, rfl, .inr ⟨digits, rfl, hdigits, by ring⟩, .inl hsigned, hrest, hz⟩
      · cases h
    · rintro ⟨text, hs, hdenotes | ⟨digits, rfl, hdigits, rfl⟩, hsign, hrest, hz⟩
      · obtain ⟨c, cs, rfl⟩ := List.exists_cons_of_ne_nil hdenotes.1.1
        obtain ⟨rfl, -⟩ := List.cons.inj hs
        exact absurd rfl (ne_minus_of_isSome_digit (hdenotes.1.2 45 List.mem_cons_self))
      · obtain ⟨-, rfl⟩ := List.cons.inj hs
        rw [if_pos (hsign.resolve_right fun h => h rfl), fromDigits_eq_ok_iff]
        exact ⟨digits, rfl, hdigits, hrest, by ring, hz⟩
  · rename_i hminus
    rw [fromDigits_eq_ok_iff]
    constructor
    · rintro ⟨text, rfl, htext, hrest, rfl, hz⟩
      refine ⟨text, rfl, .inl ⟨htext, by ring⟩, .inr fun hhead => ?_, hrest, hz⟩
      exact ne_minus_of_isSome_digit (htext.2 45 (List.mem_of_head? hhead)) rfl
    · rintro ⟨text, rfl, ⟨htext, rfl⟩ | ⟨digits, rfl, -⟩, -, hrest, hz⟩
      · exact ⟨text, rfl, htext, hrest, by ring, hz⟩
      · exact absurd rfl (hminus _)

theorem fromChars_eq_ok_iff {base : Nat} {z : Int} {s rest : Bytes} :
    fromChars base s = .ok z rest ↔ ∃ text, s = text ++ rest ∧ Denotes base text z ∧
      Numeral.Stops (digit base) rest ∧ -2 ^ 63 ≤ z ∧ z < 2 ^ 63 := by
  rw [fromChars, fromCharsIn_eq_ok_iff]
  simp only [show IntegralType.long.isSigned = true from rfl, true_or, true_and,
    IntegralType.holds_long]

theorem fromCharsAs_eq_ok_iff {t : IntegralType} {z : Int} {s rest : Bytes} :
    fromCharsAs t s = .ok z rest ↔ ∃ text, s = text ++ rest ∧ Denotes 10 text z ∧
      (t.isSigned ∨ text.head? ≠ some 45) ∧ Numeral.Stops (digit 10) rest ∧ t.Holds z :=
  fromCharsIn_eq_ok_iff

end CppEvent
