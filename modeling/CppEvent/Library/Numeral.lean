import Mathlib

/-!
# Positional numerals

Reading the longest run of digits at the front of a text, over any alphabet `δ` with a partial digit
valuation.
-/

namespace Numeral

variable {δ : Type}

/-- The number that the leading digits of a text denote, appended to `acc`, and the rest of it. -/
def leading (digit : δ → Option Nat) (base : Nat) : Nat → List δ → Nat × List δ
  | acc, [] => (acc, [])
  | acc, c :: cs =>
      match digit c with
      | some d => leading digit base (acc * base + d) cs
      | none => (acc, c :: cs)

def value (digit : δ → Option Nat) (base : Nat) (text : List δ) : Nat :=
  (leading digit base 0 text).1

def IsNumeral (digit : δ → Option Nat) (text : List δ) : Prop :=
  text ≠ [] ∧ ∀ c ∈ text, (digit c).isSome

/-- A text that no digit starts, so that a run of digits before it ends where it begins. -/
def Stops (digit : δ → Option Nat) (text : List δ) : Prop :=
  ∀ c ∈ text.head?, digit c = none

variable {digit : δ → Option Nat} {base : Nat}

theorem stops_nil : Stops digit [] := fun _ hc => by cases hc

theorem leading_append {text rest : List δ} (htext : ∀ c ∈ text, (digit c).isSome)
    (hrest : Stops digit rest) (acc : Nat) :
    leading digit base acc (text ++ rest) = ((leading digit base acc text).1, rest) := by
  induction text generalizing acc with
  | nil =>
    cases rest with
    | nil => rfl
    | cons c cs =>
      have hc : digit c = none := hrest c rfl
      simp [leading, hc]
  | cons c cs ih =>
    obtain ⟨d, hd⟩ := Option.isSome_iff_exists.mp (htext c (by simp))
    simp only [List.cons_append, leading, hd]
    exact ih (fun c hc => htext c (by simp [hc])) _

theorem leading_concat {text : List δ} {c : δ} {d : Nat} (htext : ∀ c ∈ text, (digit c).isSome)
    (hc : digit c = some d) (acc : Nat) : (leading digit base acc (text ++ [c])).1 =
      (leading digit base acc text).1 * base + d := by
  induction text generalizing acc with
  | nil => simp [leading, hc]
  | cons b text ih =>
    obtain ⟨n, hn⟩ := Option.isSome_iff_exists.mp (htext b List.mem_cons_self)
    simp only [List.cons_append, leading, hn]
    exact ih (fun c hc => htext c (List.mem_cons_of_mem b hc)) _

/-- A last digit counts once, and moves the digits before it up by a place. -/
theorem value_concat {text : List δ} {c : δ} {d : Nat} (htext : ∀ c ∈ text, (digit c).isSome)
    (hc : digit c = some d) : value digit base (text ++ [c]) = value digit base text * base + d :=
  leading_concat htext hc 0

/-- Reading from a digit on takes the longest numeral at the front. -/
theorem leading_eq_iff {s rest : List δ} {n : Nat} :
    ((∃ c ∈ s.head?, (digit c).isSome) ∧ leading digit base 0 s = (n, rest)) ↔
      ∃ text, s = text ++ rest ∧ IsNumeral digit text ∧ Stops digit rest ∧
        n = value digit base text := by
  constructor
  · rintro ⟨⟨c, hhead, hc⟩, hread⟩
    let p : δ → Bool := fun c => (digit c).isSome
    have hdigits : ∀ x ∈ s.takeWhile p, (digit x).isSome := fun x hx =>
      List.mem_takeWhile_imp (p := p) hx
    have hstops : Stops digit (s.dropWhile p) := fun x hx => by
      have hnot := List.head?_dropWhile_not p s
      rw [Option.mem_def.mp hx] at hnot
      simpa [p] using hnot
    have hsplit : s.takeWhile p ++ s.dropWhile p = s := List.takeWhile_append_dropWhile
    have hread' : leading digit base 0 (s.takeWhile p ++ s.dropWhile p) = _ :=
      leading_append hdigits hstops 0
    rw [hsplit, hread] at hread'
    obtain ⟨rfl, rfl⟩ := Prod.mk.inj hread'
    refine ⟨s.takeWhile p, hsplit.symm, ⟨?_, hdigits⟩, hstops, rfl⟩
    obtain ⟨cs, rfl⟩ := List.head?_eq_some_iff.mp hhead
    rw [List.takeWhile_cons_of_pos (p := p) hc]
    exact List.cons_ne_nil _ _
  · rintro ⟨text, rfl, ⟨hne, hdigits⟩, hstops, rfl⟩
    refine ⟨?_, leading_append hdigits hstops 0⟩
    obtain ⟨c, cs, rfl⟩ := List.exists_cons_of_ne_nil hne
    exact ⟨c, rfl, hdigits c List.mem_cons_self⟩

end Numeral
