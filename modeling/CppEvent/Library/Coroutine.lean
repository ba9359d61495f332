import Mathlib

/-!
# Coroutines over an explicit state

A coroutine body is a function from the state it shares with its environment to how it leaves off
(`Outcome`) and the state it leaves behind. Awaiting a coroutine is `>>=`: its exception and its
suspension become those of the awaiting body.

* `Coro.iterate` runs a loop body for a bounded number of rounds; `iterate_spec` is the induction
  over the rounds, with a measure that each round lowers.
* `Coro.focus` runs a coroutine on one part of a larger state and leaves the rest alone.
-/

namespace Coroutine

/-- How a coroutine leaves off. `suspended` is an await whose completion has not come; `undefined`
is an operation outside its precondition, after which nothing is promised. -/
inductive Outcome (ε α : Type) where
  | returned (value : α)
  | threw (exception : ε)
  | suspended
  | undefined
  deriving DecidableEq, Repr

/-- A coroutine that returns an `α`, throws an `ε`, and works on a state `σ`. -/
structure Coro (σ ε α : Type) where
  run : σ → Outcome ε α × σ

namespace Coro

variable {σ τ ε ε' ε'' α β γ : Type}

/-- `co_return`. -/
protected def pure (a : α) : Coro σ ε α := ⟨fun s => (.returned a, s)⟩

/-- `co_await`: the second body starts from the value and the state of the first. -/
protected def bind (t : Coro σ ε α) (f : α → Coro σ ε β) : Coro σ ε β := ⟨fun s =>
  match t.run s with
  | (.returned a, s') => (f a).run s'
  | (.threw e, s') => (.threw e, s')
  | (.suspended, s') => (.suspended, s')
  | (.undefined, s') => (.undefined, s')⟩

instance : Monad (Coro σ ε) where
  pure := Coro.pure
  bind := Coro.bind

/-- Leave with an exception. -/
def fail (e : ε) : Coro σ ε α := ⟨fun s => (.threw e, s)⟩

/-- Wait for something that does not come. -/
def suspend : Coro σ ε α := ⟨fun s => (.suspended, s)⟩

/-- Leave the behaviour undefined. -/
def stuck : Coro σ ε α := ⟨fun s => (.undefined, s)⟩

def get : Coro σ ε σ := ⟨fun s => (.returned s, s)⟩

def modify (f : σ → σ) : Coro σ ε Unit := ⟨fun s => (.returned (), f s)⟩

@[simp] theorem run_pure (a : α) (s : σ) : (pure a : Coro σ ε α).run s = (.returned a, s) := rfl

@[simp] theorem run_fail (e : ε) (s : σ) : (fail e : Coro σ ε α).run s = (.threw e, s) := rfl

@[simp] theorem run_suspend (s : σ) : (suspend : Coro σ ε α).run s = (.suspended, s) := rfl

@[simp] theorem run_stuck (s : σ) : (stuck : Coro σ ε α).run s = (.undefined, s) := rfl

@[simp] theorem run_get (s : σ) : (get : Coro σ ε σ).run s = (.returned s, s) := rfl

@[simp] theorem run_modify (f : σ → σ) (s : σ) :
    (modify f : Coro σ ε Unit).run s = (.returned (), f s) := rfl

theorem run_bind (t : Coro σ ε α) (f : α → Coro σ ε β) (s : σ) :
    (t >>= f).run s = match t.run s with
      | (.returned a, s') => (f a).run s'
      | (.threw e, s') => (.threw e, s')
      | (.suspended, s') => (.suspended, s')
      | (.undefined, s') => (.undefined, s') := rfl

theorem bind_returned {t : Coro σ ε α} {s s' : σ} {a : α} (f : α → Coro σ ε β)
    (h : t.run s = (.returned a, s')) : (t >>= f).run s = (f a).run s' := by
  rw [run_bind, h]

theorem bind_threw {t : Coro σ ε α} {s s' : σ} {e : ε} (f : α → Coro σ ε β)
    (h : t.run s = (.threw e, s')) : (t >>= f).run s = (.threw e, s') := by
  rw [run_bind, h]

theorem bind_suspended {t : Coro σ ε α} {s s' : σ} (f : α → Coro σ ε β)
    (h : t.run s = (.suspended, s')) : (t >>= f).run s = (.suspended, s') := by
  rw [run_bind, h]

theorem bind_undefined {t : Coro σ ε α} {s s' : σ} (f : α → Coro σ ε β)
    (h : t.run s = (.undefined, s')) : (t >>= f).run s = (.undefined, s') := by
  rw [run_bind, h]

theorem run_bind_pure_snd (t : Coro σ ε α) (f : α → β) (s : σ) :
    ((t >>= fun a => (pure (f a) : Coro σ ε β)).run s).2 = (t.run s).2 := by
  rw [run_bind]
  rcases t.run s with ⟨_ | _ | _ | _, _⟩ <;> rfl

theorem returned_of_bind {t : Coro σ ε α} {f : α → Coro σ ε β} {s s'' : σ} {b : β}
    (h : (t >>= f).run s = (.returned b, s'')) :
    ∃ a s', t.run s = (.returned a, s') ∧ (f a).run s' = (.returned b, s'') := by
  rw [run_bind] at h
  rcases ht : t.run s with ⟨o, s'⟩
  rw [ht] at h
  cases o with
  | returned a => exact ⟨a, s', rfl, h⟩
  | threw e => simp at h
  | suspended => simp at h
  | undefined => simp at h

theorem returned_or (t : Coro σ ε α) (s : σ) :
    (∃ a s', t.run s = (.returned a, s')) ∨ ∀ a, (t.run s).1 ≠ .returned a := by
  rcases hrun : t.run s with ⟨a | e | _ | _, s'⟩
  · exact .inl ⟨a, s', rfl⟩
  all_goals exact .inr fun a h => by cases h

theorem bind_of_not_returned {t : Coro σ ε α} {s : σ} (f : α → Coro σ ε β)
    (h : ∀ a, (t.run s).1 ≠ .returned a) :
    ((t >>= f).run s).2 = (t.run s).2 ∧ ∀ b, ((t >>= f).run s).1 ≠ .returned b := by
  rw [run_bind]
  rcases hrun : t.run s with ⟨a | e | _ | _, s'⟩
  · rw [hrun] at h
    exact absurd rfl (h a)
  all_goals exact ⟨rfl, fun b hb => by cases hb⟩

@[simp] theorem pure_bind (a : α) (f : α → Coro σ ε β) : (pure a : Coro σ ε α) >>= f = f a := rfl

@[simp] theorem fail_bind (e : ε) (f : α → Coro σ ε β) :
    (fail e : Coro σ ε α) >>= f = fail e := rfl

@[simp] theorem run_get_bind (f : σ → Coro σ ε β) (s : σ) :
    (get >>= f).run s = (f s).run s := rfl

@[simp] theorem run_modify_bind (g : σ → σ) (f : Unit → Coro σ ε β) (s : σ) :
    (modify g >>= f).run s = (f ()).run (g s) := rfl

theorem bind_assoc (t : Coro σ ε α) (f : α → Coro σ ε β) (g : β → Coro σ ε γ) :
    t >>= f >>= g = t >>= fun a => f a >>= g := by
  refine congrArg Coro.mk (funext fun s => ?_)
  simp only [run_bind]
  rcases t.run s with ⟨_ | _ | _ | _, _⟩ <;> rfl

theorem run_ite (c : Prop) [Decidable c] (t u : Coro σ ε α) (s : σ) :
    (if c then t else u).run s = if c then t.run s else u.run s := by
  split <;> rfl

theorem ext {t u : Coro σ ε α} (h : ∀ s, t.run s = u.run s) : t = u :=
  congrArg Coro.mk (funext h)

def void (t : Coro σ ε α) : Coro σ ε Unit := t >>= fun _ => pure ()

theorem void_unit (t : Coro σ ε Unit) : void t = t := by
  apply ext
  intro s
  simp only [void, run_bind]
  rcases t.run s with ⟨_ | _ | _ | _, _⟩ <;> rfl

theorem void_returned {t : Coro σ ε α} {s s' : σ} {a : α} (h : t.run s = (.returned a, s')) :
    (void t).run s = (.returned (), s') := by
  rw [void, bind_returned _ h, run_pure]

/-- Catch the exception of a coroutine. -/
def attempt (t : Coro σ ε α) : Coro σ ε' (Except ε α) := ⟨fun s =>
  match t.run s with
  | (.returned a, s') => (.returned (.ok a), s')
  | (.threw e, s') => (.returned (.error e), s')
  | (.suspended, s') => (.suspended, s')
  | (.undefined, s') => (.undefined, s')⟩

theorem attempt_returned {t : Coro σ ε α} {s s' : σ} {a : α} (h : t.run s = (.returned a, s')) :
    (attempt t : Coro σ ε' _).run s = (.returned (.ok a), s') := by
  simp only [attempt, h]

theorem attempt_threw {t : Coro σ ε α} {s s' : σ} {e : ε} (h : t.run s = (.threw e, s')) :
    (attempt t : Coro σ ε' _).run s = (.returned (.error e), s') := by
  simp only [attempt, h]

theorem run_attempt_snd (t : Coro σ ε α) (s : σ) :
    ((attempt t : Coro σ ε' _).run s).2 = (t.run s).2 := by
  simp only [attempt]
  rcases t.run s with ⟨_ | _ | _ | _, _⟩ <;> rfl

def mapError (f : ε → ε') (t : Coro σ ε α) : Coro σ ε' α := ⟨fun s =>
  match t.run s with
  | (.returned a, s') => (.returned a, s')
  | (.threw e, s') => (.threw (f e), s')
  | (.suspended, s') => (.suspended, s')
  | (.undefined, s') => (.undefined, s')⟩

theorem mapError_returned_iff {f : ε → ε'} {t : Coro σ ε α} {s s' : σ} {a : α} :
    (mapError f t).run s = (.returned a, s') ↔ t.run s = (.returned a, s') := by
  simp only [mapError]
  rcases t.run s with ⟨_ | _ | _ | _, _⟩ <;> simp

theorem run_mapError_snd (f : ε → ε') (t : Coro σ ε α) (s : σ) :
    ((mapError f t).run s).2 = (t.run s).2 := by
  simp only [mapError]
  rcases t.run s with ⟨_ | _ | _ | _, _⟩ <;> rfl

@[simp] theorem mapError_pure (f : ε → ε') (a : α) :
    mapError f (pure a : Coro σ ε α) = pure a := rfl

@[simp] theorem mapError_fail (f : ε → ε') (e : ε) :
    mapError f (fail e : Coro σ ε α) = fail (f e) := rfl

@[simp] theorem mapError_get (f : ε → ε') :
    mapError f (get : Coro σ ε σ) = get := rfl

@[simp] theorem mapError_modify (f : ε → ε') (g : σ → σ) :
    mapError f (modify g : Coro σ ε Unit) = modify g := rfl

@[simp] theorem mapError_stuck (f : ε → ε') : mapError f (stuck : Coro σ ε α) = stuck := rfl

theorem mapError_bind (f : ε → ε') (t : Coro σ ε α) (g : α → Coro σ ε β) :
    mapError f (t >>= g) = mapError f t >>= fun a => mapError f (g a) := by
  refine congrArg Coro.mk (funext fun s => ?_)
  simp only [mapError, run_bind]
  rcases t.run s with ⟨_ | _ | _ | _, _⟩ <;> rfl

theorem mapError_mapError (f : ε → ε') (g : ε' → ε'') (t : Coro σ ε α) :
    mapError g (mapError f t) = mapError (fun e => g (f e)) t := by
  refine congrArg Coro.mk (funext fun s => ?_)
  simp only [mapError]
  rcases t.run s with ⟨_ | _ | _ | _, _⟩ <;> rfl

theorem mapError_id (t : Coro σ ε α) : mapError (fun e => e) t = t := by
  refine congrArg Coro.mk (funext fun s => ?_)
  rcases t.run s with ⟨_ | _ | _ | _, _⟩ <;> rfl

theorem mapError_ite (f : ε → ε') (c : Prop) [Decidable c] (t u : Coro σ ε α) :
    mapError f (if c then t else u) = if c then mapError f t else mapError f u := by
  split <;> rfl

def ofExcept : Except ε α → Coro σ ε α
  | .ok a => pure a
  | .error e => fail e

@[simp] theorem ofExcept_ok (a : α) : (ofExcept (.ok a) : Coro σ ε α) = pure a := rfl

@[simp] theorem ofExcept_error (e : ε) : (ofExcept (.error e) : Coro σ ε α) = fail e := rfl

/-! ### Loops -/

/-- A loop of at most `n` rounds. A round returns either the loop's local state for the next round
(`inl`) or the value with which the loop ends (`inr`). -/
def iterate (body : β → Coro σ ε (β ⊕ α)) : Nat → β → Coro σ ε α
  | 0, _ => suspend
  | n + 1, b => body b >>= fun
      | .inl b' => iterate body n b'
      | .inr a => pure a

/-- A loop whose number of rounds is bounded by the state it starts in. -/
def loop (rounds : σ → Nat) (body : β → Coro σ ε (β ⊕ α)) (b : β) : Coro σ ε α :=
  ⟨fun s => (iterate body (rounds s) b).run s⟩

theorem run_loop (rounds : σ → Nat) (body : β → Coro σ ε (β ⊕ α)) (b : β) (s : σ) :
    (loop rounds body b).run s = (iterate body (rounds s) b).run s := rfl

theorem iterate_inl {body : β → Coro σ ε (β ⊕ α)} {n : Nat} {b b' : β} {s s' : σ}
    (h : (body b).run s = (.returned (.inl b'), s')) :
    (iterate body (n + 1) b).run s = (iterate body n b').run s' := by
  rw [iterate, bind_returned _ h]

theorem iterate_inr {body : β → Coro σ ε (β ⊕ α)} {n : Nat} {b : β} {s s' : σ} {a : α}
    (h : (body b).run s = (.returned (.inr a), s')) :
    (iterate body (n + 1) b).run s = (.returned a, s') := by
  rw [iterate, bind_returned _ h, run_pure]

theorem mapError_iterate (f : ε → ε') (body : β → Coro σ ε (β ⊕ α)) (n : Nat) (b : β) :
    mapError f (iterate body n b) = iterate (fun b => mapError f (body b)) n b := by
  induction n generalizing b with
  | zero => rfl
  | succ n ih =>
    rw [iterate, iterate, mapError_bind]
    refine congrArg (mapError f (body b) >>= ·) (funext fun r => ?_)
    cases r with
    | inl b' => exact ih b'
    | inr a => rfl

theorem mapError_loop (f : ε → ε') (rounds : σ → Nat) (body : β → Coro σ ε (β ⊕ α)) (b : β) :
    mapError f (loop rounds body b) = loop rounds (fun b => mapError f (body b)) b := by
  refine congrArg Coro.mk (funext fun s => ?_)
  rw [← mapError_iterate]
  rfl

/-- What a round means for its loop: going on with a local state, or leaving off. -/
def leave : Outcome ε (β ⊕ α) → β ⊕ Outcome ε α
  | .returned (.inl b) => .inl b
  | .returned (.inr a) => .inr (.returned a)
  | .threw e => .inr (.threw e)
  | .suspended => .inr .suspended
  | .undefined => .inr .undefined

theorem iterate_succ (body : β → Coro σ ε (β ⊕ α)) (n : Nat) (b : β) (s : σ) :
    (iterate body (n + 1) b).run s = match leave ((body b).run s).1 with
      | .inl b' => (iterate body n b').run ((body b).run s).2
      | .inr o => (o, ((body b).run s).2) := by
  rw [iterate, run_bind]
  rcases (body b).run s with ⟨⟨b' | a⟩ | e | _ | _, s'⟩ <;> rfl

/-- The rule for loops. The invariant holds before every round; a round that goes on lowers the
measure and restores the invariant, any other round ends the loop in the postcondition. -/
theorem iterate_spec (body : β → Coro σ ε (β ⊕ α)) (inv : β → σ → Prop)
    (post : Outcome ε α → σ → Prop) (measure : β → σ → Nat)
    (hgo : ∀ b s b', inv b s → leave ((body b).run s).1 = .inl b' →
      inv b' ((body b).run s).2 ∧ measure b' ((body b).run s).2 < measure b s)
    (hleave : ∀ b s o, inv b s → leave ((body b).run s).1 = .inr o → post o ((body b).run s).2) :
    ∀ n b s, inv b s → measure b s < n →
      post ((iterate body n b).run s).1 ((iterate body n b).run s).2 := by
  intro n
  induction n with
  | zero => intro b s _ h; omega
  | succ n ih =>
    intro b s hinv hlt
    rw [iterate_succ]
    rcases hround : leave ((body b).run s).1 with b' | o
    · obtain ⟨hinv', hless⟩ := hgo b s b' hinv hround
      exact ih b' _ hinv' (by omega)
    · exact hleave b s o hinv hround

/-- The rule for loops that return: every round goes on or ends the loop with a value. -/
theorem iterate_returns {body : β → Coro σ ε (β ⊕ α)} (inv : β → σ → Prop) (post : α → σ → Prop)
    (measure : β → σ → Nat)
    (hround : ∀ b s, inv b s →
      (∃ b' s', (body b).run s = (.returned (.inl b'), s') ∧ inv b' s' ∧
        measure b' s' < measure b s) ∨
      (∃ a s', (body b).run s = (.returned (.inr a), s') ∧ post a s')) (n : Nat) (b : β) (s : σ)
    (hinv : inv b s) (hlt : measure b s < n) :
    ∃ a s', (iterate body n b).run s = (.returned a, s') ∧ post a s' := by
  have h := iterate_spec body inv (fun o s' => ∃ a, o = .returned a ∧ post a s') measure
    (fun b s b' hb hl => by
      rcases hround b s hb with ⟨b₁, s₁, hrun, h₁⟩ | ⟨a, s₁, hrun, _⟩
      · rw [hrun] at hl ⊢
        obtain rfl : b₁ = b' := by simpa [leave] using hl
        exact h₁
      · rw [hrun] at hl
        simp [leave] at hl)
    (fun b s o hb hl => by
      rcases hround b s hb with ⟨b₁, s₁, hrun, _⟩ | ⟨a, s₁, hrun, h₁⟩
      · rw [hrun] at hl
        simp [leave] at hl
      · rw [hrun] at hl ⊢
        exact ⟨a, by simpa [leave] using hl.symm, h₁⟩)
    n b s hinv hlt
  obtain ⟨a, ha, hpost⟩ := h
  exact ⟨a, _, Prod.ext ha rfl, hpost⟩

theorem loop_returns (rounds : σ → Nat) (body : β → Coro σ ε (β ⊕ α)) (inv : β → σ → Prop)
    (post : α → σ → Prop) (measure : β → σ → Nat) (b : β) (s : σ) (hinv : inv b s)
    (hlt : measure b s < rounds s)
    (hround : ∀ b s, inv b s →
      (∃ b' s', (body b).run s = (.returned (.inl b'), s') ∧ inv b' s' ∧
        measure b' s' < measure b s) ∨
      (∃ a s', (body b).run s = (.returned (.inr a), s') ∧ post a s')) :
    ∃ a s', (loop rounds body b).run s = (.returned a, s') ∧ post a s' :=
  iterate_returns inv post measure hround (rounds s) b s hinv hlt

/-- The rule for loops that may leave off in any way. -/
theorem loop_leaves (rounds : σ → Nat) (body : β → Coro σ ε (β ⊕ α)) (inv : β → σ → Prop)
    (post : Outcome ε α → σ → Prop) (measure : β → σ → Nat) (b : β) (s : σ) (hinv : inv b s)
    (hlt : measure b s < rounds s)
    (hround : ∀ b s, inv b s →
      (∃ b' s', (body b).run s = (.returned (.inl b'), s') ∧ inv b' s' ∧
        measure b' s' < measure b s) ∨
      ∃ r s' o, (body b).run s = (r, s') ∧ leave r = .inr o ∧ post o s') :
    ∃ o s', (loop rounds body b).run s = (o, s') ∧ post o s' := by
  refine ⟨_, _, rfl, iterate_spec body inv post measure ?_ ?_ (rounds s) b s hinv hlt⟩
  · intro b s b' hb hgo
    rcases hround b s hb with ⟨b₁, s₁, hrun, h₁⟩ | ⟨r, s₁, o, hrun, hleave, -⟩
    · rw [hrun] at hgo ⊢
      obtain rfl := Sum.inl.inj hgo
      exact h₁
    · rw [hrun, hleave] at hgo
      cases hgo
  · intro b s o hb hleave
    rcases hround b s hb with ⟨b₁, s₁, hrun, -⟩ | ⟨r, s₁, o', hrun, hleave', hpost⟩
    · rw [hrun] at hleave
      cases hleave
    · rw [hrun] at hleave ⊢
      obtain rfl := Sum.inr.inj (hleave'.symm.trans hleave)
      exact hpost

/-! ### Parts of a state -/

def focus (get : σ → τ) (set : τ → σ → σ) (t : Coro τ ε α) : Coro σ ε α :=
  ⟨fun s => ((t.run (get s)).1, set (t.run (get s)).2 s)⟩

theorem run_focus {get : σ → τ} {set : τ → σ → σ} {t : Coro τ ε α} {s : σ} {o : Outcome ε α}
    {p : τ} (h : t.run (get s) = (o, p)) : (focus get set t).run s = (o, set p s) := by
  simp only [focus, h]

theorem mapError_focus (f : ε → ε') (get : σ → τ) (set : τ → σ → σ) (t : Coro τ ε α) :
    mapError f (focus get set t) = focus get set (mapError f t) := by
  refine congrArg Coro.mk (funext fun s => ?_)
  simp only [mapError, focus]
  rcases t.run (get s) with ⟨_ | _ | _ | _, _⟩ <;> rfl

/-- The part of the state is a field: it is what was last put there. -/
structure IsField (get : σ → τ) (set : τ → σ → σ) : Prop where
  get_set : ∀ p s, get (set p s) = p
  set_set : ∀ p q s, set p (set q s) = set p s

theorem focus_bind {get : σ → τ} {set : τ → σ → σ} (h : IsField get set) (t : Coro τ ε α)
    (f : α → Coro τ ε β) :
    focus get set (t >>= f) = focus get set t >>= fun a => focus get set (f a) := by
  apply ext
  intro s
  simp only [focus, run_bind]
  rcases t.run (get s) with ⟨_ | _ | _ | _, p⟩ <;> simp only [h.get_set, h.set_set]

/-! ### Taking from a stream -/

/-- Whatever stands next in a stream, `t` takes `n` elements of it and returns. -/
def Takes (stream : σ → List β) (n : Nat) (t : Coro σ ε α) : Prop :=
  ∀ s taken rest, stream s = taken ++ rest → taken.length = n →
    ∃ a s', t.run s = (.returned a, s') ∧ stream s' = rest

variable {stream : σ → List β}

theorem Takes.pure (a : α) : Takes stream 0 (pure a : Coro σ ε α) := by
  intro s taken rest h hlen
  obtain rfl := List.eq_nil_of_length_eq_zero hlen
  exact ⟨a, s, rfl, h⟩

theorem Takes.bind {n m : Nat} {t : Coro σ ε α} {f : α → Coro σ ε γ} (ht : Takes stream n t)
    (hf : ∀ a, Takes stream m (f a)) : Takes stream (n + m) (t >>= f) := by
  intro s taken rest h hlen
  rw [← List.take_append_drop n taken, List.append_assoc] at h
  obtain ⟨a, s₁, hrun, hs₁⟩ := ht s _ _ h (by rw [List.length_take]; omega)
  obtain ⟨b, s₂, hrun₂, hs₂⟩ := hf a s₁ _ _ hs₁ (by rw [List.length_drop]; omega)
  exact ⟨b, s₂, by rw [bind_returned _ hrun, hrun₂], hs₂⟩

theorem Takes.void {n : Nat} {t : Coro σ ε α} (ht : Takes stream n t) :
    Takes stream n (void t) :=
  ht.bind fun _ => .pure ()

theorem Takes.focus {n : Nat} {get : σ → τ} {set : τ → σ → σ} (hfield : IsField get set)
    {inner : τ → List β} {t : Coro τ ε α} (ht : Takes inner n t) :
    Takes (fun s => inner (get s)) n (focus get set t) := by
  intro s taken rest h hlen
  obtain ⟨a, p, hrun, hp⟩ := ht (get s) taken rest h hlen
  exact ⟨a, set p s, run_focus hrun, (congrArg inner (hfield.get_set p s)).trans hp⟩

/-! ### What a coroutine returns -/

/-- If `t` returns, it returns such a value. -/
def Ensures (t : Coro σ ε α) (post : α → Prop) : Prop :=
  ∀ s a s', t.run s = (.returned a, s') → post a

variable {post : α → Prop}

theorem Ensures.pure {a : α} (h : post a) : Ensures (pure a : Coro σ ε α) post := by
  intro s a' s' hrun
  obtain rfl := Outcome.returned.inj (Prod.mk.inj hrun).1
  exact h

theorem Ensures.bind {mid : β → Prop} {t : Coro σ ε β} {f : β → Coro σ ε α} (ht : Ensures t mid)
    (hf : ∀ b, mid b → Ensures (f b) post) : Ensures (t >>= f) post := by
  intro s a s' hrun
  obtain ⟨b, s₁, hrun₁, hrun₂⟩ := returned_of_bind hrun
  exact hf b (ht s b s₁ hrun₁) s₁ a s' hrun₂

theorem Ensures.trivial (t : Coro σ ε α) : Ensures t fun _ => True := fun _ _ _ _ => True.intro

/-- The rule for loops: the invariant is about the local state. -/
theorem Ensures.loop {rounds : σ → Nat} {body : β → Coro σ ε (β ⊕ α)} (inv : β → Prop)
    (h : ∀ b, inv b → Ensures (body b) (Sum.elim inv post)) {b : β} (hb : inv b) :
    Ensures (loop rounds body b) post := by
  have hiterate : ∀ n b, inv b → Ensures (iterate body n b) post := by
    intro n
    induction n with
    | zero =>
      intro b hb s a s' hrun
      cases hrun
    | succ n ih =>
      intro b hb
      refine Ensures.bind (h b hb) fun r hr => ?_
      cases r with
      | inl b' => exact ih b' hr
      | inr a => exact .pure hr
  exact fun s => hiterate (rounds s) b hb s

/-! ### What a coroutine leaves alone -/

/-- However `t` leaves off, this part of the state is as before. -/
def Keeps (part : σ → τ) (t : Coro σ ε α) : Prop := ∀ s, part (t.run s).2 = part s

variable {part : σ → τ}

theorem Keeps.pure (a : α) : Keeps part (pure a : Coro σ ε α) := fun _ => rfl

theorem Keeps.fail (e : ε) : Keeps part (fail e : Coro σ ε α) := fun _ => rfl

theorem Keeps.get : Keeps part (get : Coro σ ε σ) := fun _ => rfl

theorem Keeps.modify {f : σ → σ} (h : ∀ s, part (f s) = part s) :
    Keeps part (modify f : Coro σ ε Unit) := h

theorem Keeps.bind {t : Coro σ ε α} {f : α → Coro σ ε β} (ht : Keeps part t)
    (hf : ∀ a, Keeps part (f a)) : Keeps part (t >>= f) := by
  intro s
  have h := ht s
  rw [run_bind]
  rcases hrun : t.run s with ⟨o, s'⟩
  rw [hrun] at h
  cases o with
  | returned a => exact (hf a s').trans h
  | threw e => exact h
  | suspended => exact h
  | undefined => exact h

theorem Keeps.ite {c : Prop} [Decidable c] {t u : Coro σ ε α} (ht : Keeps part t)
    (hu : Keeps part u) : Keeps part (if c then t else u) := by
  split
  · exact ht
  · exact hu

theorem Keeps.focus {ρ : Type} {get : σ → ρ} {set : ρ → σ → σ} (h : ∀ p s, part (set p s) = part s)
    (t : Coro ρ ε α) : Keeps part (focus get set t) := fun s => h _ s

theorem Keeps.ofExcept (r : Except ε α) : Keeps part (ofExcept r : Coro σ ε α) := by
  cases r with
  | ok a => exact Keeps.pure a
  | error e => exact Keeps.fail e

theorem Keeps.of_mapError {f : ε → ε'} {t : Coro σ ε α} (h : Keeps part (mapError f t)) :
    Keeps part t := fun s => by
  rw [← run_mapError_snd f]
  exact h s

theorem Keeps.focus_field {ρ κ : Type} {get : σ → ρ} {set : ρ → σ → σ} (hfield : IsField get set)
    {inner : ρ → κ} {t : Coro ρ ε α} (ht : Keeps inner t) :
    Keeps (fun s => inner (get s)) (Coro.focus get set t) := by
  intro s
  simp only [Coro.focus, hfield.get_set]
  exact ht (get s)

theorem Keeps.stuck : Keeps part (Coro.stuck : Coro σ ε α) := fun _ => rfl

theorem Keeps.iterate {body : β → Coro σ ε (β ⊕ α)} (h : ∀ b, Keeps part (body b)) (n : Nat)
    (b : β) : Keeps part (Coro.iterate body n b) := by
  induction n generalizing b with
  | zero => exact fun _ => rfl
  | succ n ih =>
    refine Keeps.bind (h b) fun r => ?_
    cases r with
    | inl b' => exact ih b'
    | inr a => exact Keeps.pure a

theorem Keeps.loop {rounds : σ → Nat} {body : β → Coro σ ε (β ⊕ α)} (h : ∀ b, Keeps part (body b))
    (b : β) : Keeps part (Coro.loop rounds body b) :=
  fun s => Keeps.iterate h (rounds s) b s

/-! ### Invariants -/

/-- However `t` leaves off, an invariant that holds before holds after. -/
def Preserves (inv : σ → Prop) (t : Coro σ ε α) : Prop := ∀ s, inv s → inv (t.run s).2

variable {inv : σ → Prop}

theorem Preserves.of_returned {t : Coro σ ε α} (ht : Preserves inv t) {s s' : σ} {a : α}
    (hrun : t.run s = (.returned a, s')) (h : inv s) : inv s' := by
  have := ht s h
  rwa [hrun] at this

theorem Preserves.pure (a : α) : Preserves inv (pure a : Coro σ ε α) := fun _ h => h

theorem Preserves.fail (e : ε) : Preserves inv (fail e : Coro σ ε α) := fun _ h => h

theorem Preserves.stuck : Preserves inv (stuck : Coro σ ε α) := fun _ h => h

theorem Preserves.get : Preserves inv (get : Coro σ ε σ) := fun _ h => h

theorem Preserves.modify {f : σ → σ} (h : ∀ s, inv s → inv (f s)) :
    Preserves inv (modify f : Coro σ ε Unit) := h

theorem Preserves.bind {t : Coro σ ε α} {f : α → Coro σ ε β} (ht : Preserves inv t)
    (hf : ∀ a, Preserves inv (f a)) : Preserves inv (t >>= f) := by
  intro s hs
  have h := ht s hs
  rw [run_bind]
  rcases hrun : t.run s with ⟨o, s'⟩
  rw [hrun] at h
  cases o with
  | returned a => exact hf a s' h
  | threw e => exact h
  | suspended => exact h
  | undefined => exact h

theorem Preserves.bind_returned {t : Coro σ ε α} {f : α → Coro σ ε β} (ht : Preserves inv t)
    (hf : ∀ a s s', t.run s = (.returned a, s') → Preserves inv (f a)) :
    Preserves inv (t >>= f) := by
  intro s hs
  have h := ht s hs
  rw [run_bind]
  rcases hrun : t.run s with ⟨o, s'⟩
  rw [hrun] at h
  cases o with
  | returned a => exact hf a s s' hrun s' h
  | threw e => exact h
  | suspended => exact h
  | undefined => exact h

theorem Preserves.of_keeps {part : σ → τ} {p : τ → Prop} {t : Coro σ ε α} (ht : Keeps part t) :
    Preserves (fun s => p (part s)) t := by
  intro s hs
  rw [ht s]
  exact hs

theorem Preserves.ite {c : Prop} [Decidable c] {t u : Coro σ ε α} (ht : Preserves inv t)
    (hu : Preserves inv u) : Preserves inv (if c then t else u) := by
  split
  · exact ht
  · exact hu

theorem Preserves.ofExcept (r : Except ε α) : Preserves inv (ofExcept r : Coro σ ε α) := by
  cases r with
  | ok a => exact Preserves.pure a
  | error e => exact Preserves.fail e

theorem Preserves.attempt {t : Coro σ ε α} (ht : Preserves inv t) :
    Preserves inv (attempt t : Coro σ ε' (Except ε α)) := fun s hs => by
  rw [run_attempt_snd]
  exact ht s hs

theorem Preserves.mapError {f : ε → ε'} {t : Coro σ ε α} (ht : Preserves inv t) :
    Preserves inv (mapError f t) := fun s hs => by
  rw [run_mapError_snd]
  exact ht s hs

theorem Preserves.iterate {body : β → Coro σ ε (β ⊕ α)} (h : ∀ b, Preserves inv (body b))
    (n : Nat) (b : β) : Preserves inv (iterate body n b) := by
  induction n generalizing b with
  | zero => exact fun _ hs => hs
  | succ n ih =>
    refine Preserves.bind (h b) fun r => ?_
    cases r with
    | inl b' => exact ih b'
    | inr a => exact Preserves.pure a

theorem Preserves.loop {rounds : σ → Nat} {body : β → Coro σ ε (β ⊕ α)}
    (h : ∀ b, Preserves inv (body b)) (b : β) : Preserves inv (loop rounds body b) :=
  fun s => Preserves.iterate h (rounds s) b s

/-! ### From a precondition to a postcondition -/

/-- Where the precondition holds and `t` returns, the postcondition holds. -/
def Leads (pre : σ → Prop) (t : Coro σ ε α) (post : α → σ → Prop) : Prop :=
  ∀ s a s', pre s → t.run s = (.returned a, s') → post a s'

theorem Leads.pure {post : α → σ → Prop} (a : α) :
    Leads (post a) (pure a : Coro σ ε α) post := by
  intro s a' s' hs hrun
  obtain ⟨ha, rfl⟩ := Prod.mk.inj hrun
  obtain rfl := Outcome.returned.inj ha
  exact hs

theorem Leads.bind {pre : σ → Prop} {mid : β → σ → Prop} {post : α → σ → Prop} {t : Coro σ ε β}
    {f : β → Coro σ ε α} (ht : Leads pre t mid) (hf : ∀ b, Leads (mid b) (f b) post) :
    Leads pre (t >>= f) post := by
  intro s a s' hs hrun
  obtain ⟨b, s₁, hrun₁, hrun₂⟩ := returned_of_bind hrun
  exact hf b s₁ a s' (ht s b s₁ hs hrun₁) hrun₂

/-- The rule for loops: the invariant is about the local state and the state. -/
theorem Leads.loop {rounds : σ → Nat} {body : β → Coro σ ε (β ⊕ α)} (inv : β → σ → Prop)
    {post : α → σ → Prop}
    (h : ∀ b, Leads (inv b) (body b) fun r s => Sum.elim (inv · s) (post · s) r) (b : β) :
    Leads (inv b) (loop rounds body b) post := by
  have hiterate : ∀ n b, Leads (inv b) (iterate body n b) post := by
    intro n
    induction n with
    | zero =>
      intro b s a s' _ hrun
      cases hrun
    | succ n ih =>
      intro b
      refine (h b).bind fun r => ?_
      cases r with
      | inl b' => exact ih b'
      | inr a => exact Leads.pure a
  exact fun s => hiterate (rounds s) b s

/-! ### Staying defined -/

/-- However `t` leaves off, it is not in undefined behaviour. -/
def Defined (t : Coro σ ε α) : Prop := ∀ s, (t.run s).1 ≠ .undefined

theorem Defined.pure (a : α) : Defined (pure a : Coro σ ε α) := fun _ => by simp

theorem Defined.fail (e : ε) : Defined (fail e : Coro σ ε α) := fun _ => by simp

theorem Defined.get : Defined (get : Coro σ ε σ) := fun _ => by simp

theorem Defined.modify (f : σ → σ) : Defined (modify f : Coro σ ε Unit) := fun _ => by simp

theorem Defined.ofExcept (r : Except ε α) : Defined (ofExcept r : Coro σ ε α) := by
  cases r with
  | ok a => exact Defined.pure a
  | error e => exact Defined.fail e

theorem Defined.bind {t : Coro σ ε α} {f : α → Coro σ ε β} (ht : Defined t)
    (hf : ∀ a, Defined (f a)) : Defined (t >>= f) := by
  intro s
  have h := ht s
  rw [run_bind]
  rcases hrun : t.run s with ⟨o, s'⟩
  rw [hrun] at h
  cases o with
  | returned a => exact hf a s'
  | threw e => simp
  | suspended => simp
  | undefined => exact absurd rfl h

theorem Defined.ite {c : Prop} [Decidable c] {t u : Coro σ ε α} (ht : Defined t)
    (hu : Defined u) : Defined (if c then t else u) := by
  split
  · exact ht
  · exact hu

theorem Defined.focus {get : σ → τ} {set : τ → σ → σ} {t : Coro τ ε α} (ht : Defined t) :
    Defined (focus get set t) := fun s => ht (get s)

theorem Defined.iterate {body : β → Coro σ ε (β ⊕ α)} (h : ∀ b, Defined (body b)) (n : Nat)
    (b : β) : Defined (iterate body n b) := by
  induction n generalizing b with
  | zero => exact fun _ => by simp [Coro.iterate]
  | succ n ih =>
    refine Defined.bind (h b) fun r => ?_
    cases r with
    | inl b' => exact ih b'
    | inr a => exact Defined.pure a

theorem Defined.loop {rounds : σ → Nat} {body : β → Coro σ ε (β ⊕ α)}
    (h : ∀ b, Defined (body b)) (b : β) : Defined (loop rounds body b) :=
  fun s => Defined.iterate h (rounds s) b s

/-! ### Exceptions -/

def Throws (es : ε → Prop) (t : Coro σ ε α) : Prop := ∀ s e s', t.run s = (.threw e, s') → es e

variable {es : ε → Prop}

theorem Throws.pure (a : α) : Throws es (pure a : Coro σ ε α) := fun _ _ _ h => by cases h

theorem Throws.fail {e : ε} (h : es e) : Throws es (fail e : Coro σ ε α) := by
  intro s e' s' hrun
  rwa [← Outcome.threw.inj (Prod.mk.inj hrun).1]

theorem Throws.get : Throws es (get : Coro σ ε σ) := fun _ _ _ h => by cases h

theorem Throws.bind {t : Coro σ ε α} {f : α → Coro σ ε β} (ht : Throws es t)
    (hf : ∀ a, Throws es (f a)) : Throws es (t >>= f) := by
  intro s e s' hrun
  rcases htrun : t.run s with ⟨o, s₁⟩
  cases o with
  | returned a =>
    rw [bind_returned _ htrun] at hrun
    exact hf a s₁ e s' hrun
  | threw e₁ =>
    rw [bind_threw _ htrun] at hrun
    obtain rfl := Outcome.threw.inj (Prod.mk.inj hrun).1
    exact ht s e₁ s₁ htrun
  | suspended =>
    rw [bind_suspended _ htrun] at hrun
    cases hrun
  | undefined =>
    rw [bind_undefined _ htrun] at hrun
    cases hrun

theorem Throws.ite {c : Prop} [Decidable c] {t u : Coro σ ε α} (ht : Throws es t)
    (hu : Throws es u) : Throws es (if c then t else u) := by
  split
  · exact ht
  · exact hu

theorem Throws.focus {get : σ → τ} {set : τ → σ → σ} {t : Coro τ ε α} (ht : Throws es t) :
    Throws es (focus get set t) :=
  fun _ _ _ hrun => ht _ _ _ (Prod.ext (Prod.mk.inj hrun).1 rfl)

theorem Throws.loop {rounds : σ → Nat} {body : β → Coro σ ε (β ⊕ α)} (h : ∀ b, Throws es (body b))
    (b : β) : Throws es (loop rounds body b) := by
  have hiterate : ∀ n b, Throws es (Coro.iterate body n b) := by
    intro n
    induction n with
    | zero => exact fun _ _ _ _ hrun => by cases hrun
    | succ n ih =>
      intro b
      refine (h b).bind fun r => ?_
      cases r with
      | inl b' => exact ih b'
      | inr a => exact Throws.pure a
  exact fun s => hiterate (rounds s) b s

end Coro

end Coroutine
