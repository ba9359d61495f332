import Mathlib

/-!
# Runs of a labelled transition relation

A run is a sequence of steps, read off as the list of their labels. What every step keeps, every run
keeps; a run with a label in the middle of its trace passes through the step of that label.
-/

namespace Transition

variable {σ τ l : Type} {step : σ → l → σ → Prop}

/-- The steps with these labels lead from one state to the other. -/
inductive Run (step : σ → l → σ → Prop) : σ → List l → σ → Prop
  | nil (s : σ) : Run step s [] s
  | cons {s s' s'' : σ} {a : l} {as : List l} (head : step s a s') (tail : Run step s' as s'') :
      Run step s (a :: as) s''

/-- The steps of `step` that are taken only from states where `allowed` holds of the label. -/
def Within (allowed : σ → l → Prop) (step : σ → l → σ → Prop) : σ → l → σ → Prop :=
  fun s a s' => allowed s a ∧ step s a s'

namespace Run

theorem mono {step' : σ → l → σ → Prop} (h : ∀ s a s', step s a s' → step' s a s') {s s' : σ}
    {as : List l} (hrun : Run step s as s') : Run step' s as s' := by
  induction hrun with
  | nil s => exact .nil s
  | cons head _ ih => exact .cons (h _ _ _ head) ih

theorem invariant (inv : σ → Prop) (hstep : ∀ s a s', inv s → step s a s' → inv s') {s s' : σ}
    {as : List l} (hrun : Run step s as s') (h : inv s) : inv s' := by
  induction hrun with
  | nil s => exact h
  | cons head _ ih => exact ih (hstep _ _ _ h head)

theorem trace_invariant (inv : List l → σ → Prop)
    (hstep : ∀ as s a s', inv as s → step s a s' → inv (as ++ [a]) s') {s s' : σ} {as : List l}
    (hrun : Run step s as s') (h : inv [] s) : inv as s' := by
  suffices hgen : ∀ pre, inv pre s → inv (pre ++ as) s' from hgen [] h
  clear h
  induction hrun with
  | nil s =>
    intro pre hpre
    rwa [List.append_nil]
  | cons head _ ih =>
    intro pre hpre
    have := ih _ (hstep _ _ _ _ hpre head)
    rwa [List.append_assoc] at this

/-- What the steps of some labels leave alone, runs over these labels leave alone. -/
theorem keeps (part : σ → τ) (labels : l → Prop)
    (hstep : ∀ s a s', labels a → step s a s' → part s' = part s) {s s' : σ} {as : List l}
    (hrun : Run step s as s') (h : ∀ a ∈ as, labels a) : part s' = part s := by
  induction hrun with
  | nil s => rfl
  | cons head _ ih =>
    rw [ih fun a ha => h a (List.mem_cons_of_mem _ ha)]
    exact hstep _ _ _ (h _ List.mem_cons_self) head

theorem append {s s' s'' : σ} {as bs : List l} (h : Run step s as s') (h' : Run step s' bs s'') :
    Run step s (as ++ bs) s'' := by
  induction h with
  | nil s => exact h'
  | cons head _ ih => exact .cons head (ih h')

theorem of_append {s s'' : σ} {as bs : List l} (h : Run step s (as ++ bs) s'') :
    ∃ s', Run step s as s' ∧ Run step s' bs s'' := by
  induction as generalizing s with
  | nil => exact ⟨s, .nil s, h⟩
  | cons a as ih =>
    cases h with
    | cons head tail =>
      obtain ⟨s', h₁, h₂⟩ := ih tail
      exact ⟨s', .cons head h₁, h₂⟩

/-- Where a step is determined by its label, a run is determined by its labels. -/
theorem unique (hstep : ∀ s a s₁ s₂, step s a s₁ → step s a s₂ → s₁ = s₂) {s s₁ s₂ : σ} {as : List l}
    (h₁ : Run step s as s₁) (h₂ : Run step s as s₂) : s₁ = s₂ := by
  induction h₁ with
  | nil s =>
    cases h₂
    rfl
  | cons head _ ih =>
    cases h₂ with
    | cons head' tail' =>
      obtain rfl := hstep _ _ _ _ head head'
      exact ih tail'

theorem at_label {s s'' : σ} {as bs : List l} {a : l} (h : Run step s (as ++ a :: bs) s'') :
    ∃ s₁ s₂, Run step s as s₁ ∧ step s₁ a s₂ ∧ Run step s₂ bs s'' := by
  obtain ⟨s₁, h₁, h₂⟩ := of_append h
  cases h₂ with
  | cons head tail => exact ⟨s₁, _, h₁, head, tail⟩

/-- A simulation with steps that the upper level does not see. The number is that of the unseen steps
that can follow one another, so a run that is longer is seen. -/
theorem simulates {step' : τ → l → τ → Prop} (rel : Nat → σ → τ → Prop) (hidden : l → Bool)
    (hstep : ∀ k s a s' t, rel k s t → step s a s' →
      ∃ k' t', rel k' s' t' ∧ (step' t a t' ∨ hidden a = true ∧ t' = t ∧ k' < k))
    {s s' : σ} {as : List l} (hrun : Run step s as s') {k : Nat} {t : τ} (h : rel k s t) :
    ∃ bs k' t', Run step' t bs t' ∧ rel k' s' t' ∧
      bs.filter (!hidden ·) = as.filter (!hidden ·) ∧ (k < as.length → bs ≠ []) := by
  induction hrun generalizing k t with
  | nil s => exact ⟨[], k, t, .nil t, h, rfl, fun hlt => by cases hlt⟩
  | @cons s s₁ s₂ a as head tail ih =>
    obtain ⟨k₁, t₁, h₁, hseen | ⟨hhidden, rfl, hless⟩⟩ := hstep k s a s₁ t h head
    · obtain ⟨bs, k', t', hrun', h', hbs, -⟩ := ih h₁
      exact ⟨a :: bs, k', t', .cons hseen hrun', h', by rw [List.filter_cons, List.filter_cons, hbs],
        fun _ => List.cons_ne_nil a bs⟩
    · obtain ⟨bs, k', t', hrun', h', hbs, hlong⟩ := ih h₁
      refine ⟨bs, k', t', hrun', h', by rw [hbs, List.filter_cons_of_neg (by simp [hhidden])], ?_⟩
      intro hlt
      rw [List.length_cons] at hlt
      exact hlong (by omega)

end Run

end Transition
