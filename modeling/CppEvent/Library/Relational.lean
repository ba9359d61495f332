import CppEvent.Library.Program

/-!
# Two runs side by side

* `Coro.Refines view t u`: whatever `t` does, `u` does on what is seen of the state.
* `Coro.Respects R t`: from states in relation, `t` leaves off in the same way and in states that
  are in relation again. There is one rule for each way to build a coroutine.
-/

namespace Coroutine

namespace Coro

variable {σ τ ε ε' α β : Type}

/-- `u` on what is seen of the state tells how `t` leaves off and what is seen then. -/
def Refines (view : σ → τ) (t : Coro σ ε α) (u : Coro τ ε α) : Prop :=
  ∀ s, (t.run s).1 = (u.run (view s)).1 ∧ view (t.run s).2 = (u.run (view s)).2

theorem Refines.bind {view : σ → τ} {t : Coro σ ε α} {u : Coro τ ε α} {f : α → Coro σ ε β}
    {g : α → Coro τ ε β} (ht : Refines view t u) (hf : ∀ a, Refines view (f a) (g a)) :
    Refines view (t >>= f) (u >>= g) := by
  intro s
  obtain ⟨hout, hview⟩ := ht s
  rw [run_bind, run_bind]
  rcases hrun : t.run s with ⟨o, s'⟩
  rcases hrun' : u.run (view s) with ⟨o', p⟩
  rw [hrun, hrun'] at hout hview
  obtain rfl : o = o' := hout
  obtain rfl : view s' = p := hview
  cases o with
  | returned a => exact hf a s'
  | threw e => exact ⟨rfl, rfl⟩
  | suspended => exact ⟨rfl, rfl⟩
  | undefined => exact ⟨rfl, rfl⟩

theorem Refines.mapError {view : σ → τ} {f : ε → ε'} {t : Coro σ ε α} {u : Coro τ ε α}
    (h : Refines view t u) : Refines view (mapError f t) (mapError f u) := by
  intro s
  obtain ⟨hout, hview⟩ := h s
  simp only [Coro.mapError]
  rcases hrun : t.run s with ⟨o, s'⟩
  rcases hrun' : u.run (view s) with ⟨o', p⟩
  rw [hrun, hrun'] at hout hview
  obtain rfl : o = o' := hout
  cases o <;> exact ⟨rfl, hview⟩

theorem Refines.pure {view : σ → τ} (a : α) :
    Refines view (pure a : Coro σ ε α) (pure a) := fun _ => ⟨rfl, rfl⟩

theorem Refines.ite {view : σ → τ} {c : Prop} [Decidable c] {t t' : Coro σ ε α}
    {u u' : Coro τ ε α} (h : Refines view t u) (h' : Refines view t' u') :
    Refines view (if c then t else t') (if c then u else u') := by
  split
  · exact h
  · exact h'

theorem Refines.focus {ρ : Type} {get : σ → ρ} {set : ρ → σ → σ} {view : σ → τ} {inner : ρ → τ}
    (hget : ∀ s, inner (get s) = view s) (hset : ∀ p s, view (set p s) = inner p) {t : Coro ρ ε α}
    {u : Coro τ ε α} (h : Refines inner t u) : Refines view (focus get set t) u := by
  intro s
  rw [← hget]
  exact ⟨(h (get s)).1, (hset _ s).trans (h (get s)).2⟩

/-- From states in relation `t` leaves off in the same way, in states in relation. -/
def Respects (R : σ → σ → Prop) (t : Coro σ ε α) : Prop :=
  ∀ s s', R s s' → (t.run s).1 = (t.run s').1 ∧ R (t.run s).2 (t.run s').2

variable {R : σ → σ → Prop}

theorem Refines.respects {view : σ → τ} {t : Coro σ ε α} {u : Coro τ ε α}
    (h : Refines view t u) : Respects (fun s s' => view s = view s') t := by
  intro s s' hview
  obtain ⟨hout, hafter⟩ := h s
  obtain ⟨hout', hafter'⟩ := h s'
  rw [hview] at hout hafter
  exact ⟨hout.trans hout'.symm, hafter.trans hafter'.symm⟩

namespace Respects

theorem pure (a : α) : Respects R (pure a : Coro σ ε α) := fun _ _ h => ⟨rfl, h⟩

theorem fail (e : ε) : Respects R (fail e : Coro σ ε α) := fun _ _ h => ⟨rfl, h⟩

theorem suspend : Respects R (suspend : Coro σ ε α) := fun _ _ h => ⟨rfl, h⟩

theorem stuck : Respects R (stuck : Coro σ ε α) := fun _ _ h => ⟨rfl, h⟩

theorem modify {f : σ → σ} (h : ∀ s s', R s s' → R (f s) (f s')) :
    Respects R (modify f : Coro σ ε Unit) := fun s s' hR => ⟨rfl, h s s' hR⟩

theorem bind {t : Coro σ ε α} {f : α → Coro σ ε β} (ht : Respects R t)
    (hf : ∀ a, Respects R (f a)) : Respects R (t >>= f) := by
  intro s₁ s₂ hR
  obtain ⟨hout, hafter⟩ := ht s₁ s₂ hR
  rw [run_bind, run_bind]
  rcases hrun₁ : t.run s₁ with ⟨o, s₁'⟩
  rcases hrun₂ : t.run s₂ with ⟨o', s₂'⟩
  rw [hrun₁, hrun₂] at hout hafter
  obtain rfl : o = o' := hout
  cases o with
  | returned a => exact hf a s₁' s₂' hafter
  | threw e => exact ⟨rfl, hafter⟩
  | suspended => exact ⟨rfl, hafter⟩
  | undefined => exact ⟨rfl, hafter⟩

theorem get_bind {f : σ → Coro σ ε β} (hsame : ∀ s s', R s s' → f s = f s')
    (hf : ∀ s, Respects R (f s)) : Respects R (get >>= f) := by
  intro s s' hR
  rw [run_get_bind, run_get_bind, hsame s s' hR]
  exact hf s' s s' hR

theorem ite {c : Prop} [Decidable c] {t u : Coro σ ε α} (ht : Respects R t)
    (hu : Respects R u) : Respects R (if c then t else u) := by
  split
  · exact ht
  · exact hu

theorem attempt {t : Coro σ ε α} (ht : Respects R t) :
    Respects R (attempt t : Coro σ ε' _) := by
  intro s₁ s₂ hR
  obtain ⟨hout, hafter⟩ := ht s₁ s₂ hR
  simp only [Coro.attempt]
  rcases hrun₁ : t.run s₁ with ⟨o, s₁'⟩
  rcases hrun₂ : t.run s₂ with ⟨o', s₂'⟩
  rw [hrun₁, hrun₂] at hout hafter
  obtain rfl : o = o' := hout
  cases o <;> exact ⟨rfl, hafter⟩

theorem mapError {f : ε → ε'} {t : Coro σ ε α} (ht : Respects R t) :
    Respects R (mapError f t) := by
  intro s₁ s₂ hR
  obtain ⟨hout, hafter⟩ := ht s₁ s₂ hR
  simp only [Coro.mapError]
  rcases hrun₁ : t.run s₁ with ⟨o, s₁'⟩
  rcases hrun₂ : t.run s₂ with ⟨o', s₂'⟩
  rw [hrun₁, hrun₂] at hout hafter
  obtain rfl : o = o' := hout
  cases o <;> exact ⟨rfl, hafter⟩

theorem ofExcept (r : Except ε α) : Respects R (ofExcept r : Coro σ ε α) := by
  cases r with
  | ok a => exact pure a
  | error e => exact fail e

theorem iterate {body : β → Coro σ ε (β ⊕ α)} (h : ∀ b, Respects R (body b)) (n : Nat) (b : β) :
    Respects R (iterate body n b) := by
  induction n generalizing b with
  | zero => exact suspend
  | succ n ih =>
    refine bind (h b) fun r => ?_
    cases r with
    | inl b' => exact ih b'
    | inr a => exact pure a

/-- The rule for loops: states in relation allow as many rounds. -/
theorem loop {rounds : σ → Nat} {body : β → Coro σ ε (β ⊕ α)}
    (hrounds : ∀ s s', R s s' → rounds s = rounds s') (h : ∀ b, Respects R (body b)) (b : β) :
    Respects R (loop rounds body b) := by
  intro s s' hR
  rw [run_loop, run_loop, hrounds s s' hR]
  exact iterate h (rounds s') b s s' hR

theorem focus {Q : τ → τ → Prop} {get : σ → τ} {set : τ → σ → σ}
    (hget : ∀ s s', R s s' → Q (get s) (get s'))
    (hset : ∀ p p' s s', Q p p' → R s s' → R (set p s) (set p' s')) {t : Coro τ ε α}
    (ht : Respects Q t) : Respects R (focus get set t) := by
  intro s s' hR
  obtain ⟨hout, hafter⟩ := ht (get s) (get s') (hget s s' hR)
  exact ⟨hout, hset _ _ s s' hafter hR⟩

end Respects

end Coro

theorem Program.run_respects {Op : Type} {Res : Op → Type} {σ ε α : Type} {R : σ → σ → Prop}
    {perform : (op : Op) → Coro σ ε (Res op)} (hop : ∀ op, Coro.Respects R (perform op))
    (p : Program Op Res α) : Coro.Respects R (run perform p) := by
  induction p with
  | done a => exact .pure a
  | call op next ih => exact Coro.Respects.bind (hop op) ih

end Coroutine
