import CppEvent.Library.Program

/-!
# Coroutines that live on a supply

Where the state has a supply that is never raised, a coroutine may have a cost: what it takes of the
supply before it returns (`Spends`). A loop ends if every round that is followed by another costs
something (`Spends.loop`), and so does a program over operations that end (`Spends.program`).
-/

namespace Coroutine

namespace Coro

variable {σ τ ε ε' α β : Type} {inv : σ → Prop} {supply : σ → Nat} {waits : Prop}

/-- How a coroutine leaves off that had the supply `n`: it returns, and `cost` is gone, or it throws; and
it is suspended only where it may have to wait for ever. -/
def Left (inv : σ → Prop) (supply : σ → Nat) (waits : Prop) (cost : α → Nat) (n : Nat) :
    Outcome ε α × σ → Prop
  | (.returned a, s') => inv s' ∧ supply s' + cost a ≤ n
  | (.threw _, s') => inv s' ∧ supply s' ≤ n
  | (.suspended, _) => waits
  | (.undefined, _) => False

/-- From every state of the invariant `t` leaves off so. -/
def Spends (inv : σ → Prop) (supply : σ → Nat) (waits : Prop) (t : Coro σ ε α) (cost : α → Nat) :
    Prop :=
  ∀ s, inv s → Left inv supply waits cost (supply s) (t.run s)

theorem Left.mono {cost cost' : α → Nat} {n n' : Nat} {r : Outcome ε α × σ}
    (h : Left inv supply waits cost n r) (hle : ∀ a, n + cost' a ≤ n' + cost a) (hn : n ≤ n') :
    Left inv supply waits cost' n' r := by
  rcases r with ⟨a | e | _ | _, s'⟩
  · have := hle a
    exact ⟨h.1, by have := h.2; omega⟩
  · exact ⟨h.1, h.2.trans hn⟩
  · exact h
  · exact h

theorem Spends.mono {t : Coro σ ε α} {cost cost' : α → Nat} (h : Spends inv supply waits t cost)
    (hle : ∀ a, cost' a ≤ cost a) : Spends inv supply waits t cost' :=
  fun s hs => (h s hs).mono (fun a => Nat.add_le_add_left (hle a) _) (Nat.le_refl _)

theorem Spends.pure {a : α} {cost : α → Nat} (h : cost a = 0) :
    Spends inv supply waits (pure a : Coro σ ε α) cost :=
  fun _ hs => ⟨hs, by rw [h]; exact Nat.le_refl _⟩

theorem Spends.fail (e : ε) {cost : α → Nat} :
    Spends inv supply waits (fail e : Coro σ ε α) cost := fun _ hs => ⟨hs, Nat.le_refl _⟩

theorem Spends.get : Spends inv supply waits (get : Coro σ ε σ) fun _ => 0 :=
  fun _ hs => ⟨hs, Nat.le_refl _⟩

theorem Spends.modify {f : σ → σ} (hinv : ∀ s, inv s → inv (f s))
    (hle : ∀ s, supply (f s) ≤ supply s) :
    Spends inv supply waits (modify f : Coro σ ε Unit) fun _ => 0 :=
  fun s hs => ⟨hinv s hs, hle s⟩

/-- The second coroutine has to make up for what the first has not taken. -/
theorem Spends.bind {t : Coro σ ε β} {f : β → Coro σ ε α} {cost₁ : β → Nat} {cost : α → Nat}
    (ht : Spends inv supply waits t cost₁)
    (hf : ∀ b, Spends inv supply waits (f b) fun a => cost a - cost₁ b) :
    Spends inv supply waits (t >>= f) cost := by
  intro s hs
  have h := ht s hs
  rw [run_bind]
  rcases hrun : t.run s with ⟨o, s'⟩
  rw [hrun] at h
  cases o with
  | returned b =>
    have hle := h.2
    exact (hf b s' h.1).mono (fun a => by omega) (by omega)
  | threw e => exact h
  | suspended => exact h
  | undefined => exact h

theorem Spends.ite {c : Prop} [Decidable c] {t u : Coro σ ε α} {cost : α → Nat}
    (ht : Spends inv supply waits t cost) (hu : Spends inv supply waits u cost) :
    Spends inv supply waits (if c then t else u) cost := by
  split
  · exact ht
  · exact hu

theorem Spends.ofExcept (r : Except ε α) :
    Spends inv supply waits (ofExcept r : Coro σ ε α) fun _ => 0 := by
  cases r with
  | ok a => exact .pure rfl
  | error e => exact .fail e

theorem Spends.attempt {t : Coro σ ε α} {cost : α → Nat} (ht : Spends inv supply waits t cost) :
    Spends inv supply waits (attempt t : Coro σ ε' _) fun _ => 0 := by
  intro s hs
  have h := ht s hs
  simp only [Coro.attempt]
  rcases hrun : t.run s with ⟨o, s'⟩
  rw [hrun] at h
  cases o with
  | returned a => exact ⟨h.1, (Nat.le_add_right _ _).trans h.2⟩
  | threw e => exact h
  | suspended => exact h
  | undefined => exact h

theorem Spends.of_mapError {f : ε → ε'} {t : Coro σ ε α} {cost : α → Nat}
    (ht : Spends inv supply waits (mapError f t) cost) : Spends inv supply waits t cost := by
  intro s hs
  have h := ht s hs
  simp only [mapError] at h
  rcases hrun : t.run s with ⟨o, s'⟩
  rw [hrun] at h
  cases o with
  | returned a => exact h
  | threw e => exact h
  | suspended => exact h
  | undefined => exact h

/-- A round costs something if another one follows. -/
def roundCost (cost : α → Nat) : β ⊕ α → Nat := Sum.elim (fun _ => 1) cost

/-- The rule for loops: the supply is enough for the rounds. -/
theorem Spends.loop {rounds : σ → Nat} {body : β → Coro σ ε (β ⊕ α)} {cost : α → Nat}
    (hround : ∀ b, Spends inv supply waits (body b) (roundCost cost))
    (hrounds : ∀ s, supply s < rounds s) (b : β) :
    Spends inv supply waits (loop rounds body b) cost := by
  have hiterate : ∀ n b s, inv s → supply s < n →
      Left inv supply waits cost (supply s) ((iterate body n b).run s) := by
    intro n
    induction n with
    | zero => exact fun b s _ hlt => absurd hlt (Nat.not_lt_zero _)
    | succ n ih =>
      intro b s hs hlt
      have h := hround b s hs
      rw [iterate, run_bind]
      rcases hrun : (body b).run s with ⟨o, s'⟩
      rw [hrun] at h
      cases o with
      | returned r =>
        cases r with
        | inl b' =>
          have hless : supply s' + 1 ≤ supply s := h.2
          exact (ih b' s' h.1 (by omega)).mono (fun a => by omega) (by omega)
        | inr a => exact h
      | threw e => exact h
      | suspended => exact h
      | undefined => exact h
  exact fun s hs => hiterate (rounds s) b s hs (hrounds s)

theorem Spends.focus {get : σ → τ} {set : τ → σ → σ} {inner : τ → Prop} {part : τ → Nat}
    {t : Coro τ ε α} {cost : α → Nat} (ht : Spends inner part waits t cost)
    (hget : ∀ s, inv s → inner (get s) ∧ part (get s) = supply s)
    (hset : ∀ p s, inner p → inv (set p s) ∧ supply (set p s) = part p) :
    Spends inv supply waits (focus get set t) cost := by
  intro s hs
  obtain ⟨hinner, hpart⟩ := hget s hs
  have h := ht (get s) hinner
  rw [hpart] at h
  rcases hrun : t.run (get s) with ⟨o, p⟩
  rw [hrun] at h
  rw [run_focus hrun]
  cases o with
  | returned a =>
    obtain ⟨hinv, hsupply⟩ := hset p s h.1
    exact ⟨hinv, by rw [hsupply]; exact h.2⟩
  | threw e =>
    obtain ⟨hinv, hsupply⟩ := hset p s h.1
    exact ⟨hinv, by rw [hsupply]; exact h.2⟩
  | suspended => exact h
  | undefined => exact h

/-- Whatever a program calls, it makes finitely many calls. -/
theorem Spends.program {Op : Type} {Res : Op → Type} {perform : (op : Op) → Coro σ ε (Res op)}
    (hop : ∀ op, Spends inv supply waits (perform op) fun _ => 0) (p : Program Op Res α) :
    Spends inv supply waits (Program.run perform p) fun _ => 0 := by
  induction p with
  | done a => exact .pure rfl
  | call op next ih => exact .bind (hop op) ih

/-- A coroutine that lives on a supply ends, or waits where it may have to. -/
theorem Spends.ends {t : Coro σ ε α} {cost : α → Nat} (h : Spends inv supply waits t cost) {s : σ}
    (hs : inv s) : ∃ o s', t.run s = (o, s') ∧
      ((∃ a, o = .returned a) ∨ (∃ e, o = .threw e) ∨ o = .suspended ∧ waits) := by
  have hleft := h s hs
  rcases hrun : t.run s with ⟨o, s'⟩
  rw [hrun] at hleft
  cases o with
  | returned a => exact ⟨_, s', rfl, .inl ⟨a, rfl⟩⟩
  | threw e => exact ⟨_, s', rfl, .inr (.inl ⟨e, rfl⟩)⟩
  | suspended => exact ⟨_, s', rfl, .inr (.inr ⟨rfl, hleft⟩)⟩
  | undefined => exact hleft.elim

end Coro

end Coroutine
