import CppEvent.Base.Runtime

/-!
# `async_signal`

A signal is a callback of its own, an activation an event for it. Between two awaits the callback
keeps at most one status, so that a signal behaves as a binary semaphore (`Signalled`): a delivery
either resumes the coroutine that is suspended on the signal or is kept for the next one.
-/

namespace CppEvent

open Coroutine Transition

variable {H : Type}

namespace AsyncSignal

def activate (id : EId) : Runtime.Action H := .addEvent { id := id, status := 0 }

/-- What a program with the signal may do: coroutines await the signal one at a time and are not
destroyed meanwhile, and the callback stays alive. Everything that is not about the signal may
happen. -/
def OneAtATime (id : EId) (r : Runtime H) : Runtime.Action H → Prop
  | .register j | .deregister j | .destroy j _ => j ≠ id
  | .await j _ _ => j = id → id ∉ r.waiting.map Prod.snd
  | .addEvent _ | .poll _ | .dispatch _ _ => True

def deliveries (id : EId) (as : List (Runtime.Action H)) : Nat :=
  as.countP fun
    | .dispatch ev _ => ev.id = id
    | _ => false

def completed (id : EId) (as : List (Runtime.Action H)) : Nat :=
  as.countP fun
    | .await j _ (.returned _) => j = id
    | .dispatch ev (some _) => ev.id = id
    | _ => false

/-- The coroutine is suspended in an await of the signal and has seen no delivery since. -/
def AwaitsSince (id : EId) (as : List (Runtime.Action H)) (handle : H) : Prop :=
  ∃ pre post, as = pre ++ .await id handle .suspended :: post ∧
    ∀ ev resumed, .dispatch ev resumed ∈ post → ev.id ≠ id

/-- The state of a signal: the coroutine that is suspended on it, or a status for the next one. -/
structure Signalled (id : EId) (as : List (Runtime.Action H)) (r : Runtime H)
    (cb : EventCallback H) : Prop where
  sole : Runtime.Sole id r cb
  exclusive : cb.suspended ≠ none → cb.status = none
  counted : completed id as + (if cb.status = none then 0 else 1) ≤ deliveries id as
  since : ∀ handle, cb.suspended = some handle → AwaitsSince id as handle

theorem deliveries_append (id : EId) (as bs : List (Runtime.Action H)) :
    deliveries id (as ++ bs) = deliveries id as + deliveries id bs := List.countP_append

theorem completed_append (id : EId) (as bs : List (Runtime.Action H)) :
    completed id (as ++ bs) = completed id as + completed id bs := List.countP_append

theorem AwaitsSince.append {id : EId} {as : List (Runtime.Action H)} {handle : H}
    (h : AwaitsSince id as handle) {a : Runtime.Action H}
    (ha : ∀ ev resumed, a = .dispatch ev resumed → ev.id ≠ id) :
    AwaitsSince id (as ++ [a]) handle := by
  obtain ⟨pre, post, rfl, hpost⟩ := h
  refine ⟨pre, post ++ [a], by simp, fun ev resumed hmem => ?_⟩
  rcases List.mem_append.mp hmem with hmem | hmem
  · exact hpost ev resumed hmem
  · exact ha ev resumed (List.mem_singleton.mp hmem).symm

variable [DecidableEq H]

theorem signalled_of_ne {id : EId} {as : List (Runtime.Action H)} {r r' : Runtime H}
    {a : Runtime.Action H} {cb : EventCallback H} (h : Signalled id as r cb)
    (hr : Runtime.Consistent r) (hstep : Runtime.Step r a r') (hne : a.id ≠ id) :
    Signalled id (as ++ [a]) r' cb := by
  have hdispatch : ∀ ev resumed, a = .dispatch ev resumed → ev.id ≠ id := by
    rintro ev resumed rfl
    exact hne
  refine ⟨Runtime.sole_of_ne h.sole hr hstep hne, h.exclusive, ?_, ?_⟩
  · have hcounted := h.counted
    have hd : deliveries id [a] = 0 := by
      cases a <;> simp_all [deliveries, Runtime.Action.id]
    have hc : completed id [a] = 0 := by
      cases a with
      | await j handle outcome => cases outcome <;> simp_all [completed, Runtime.Action.id]
      | dispatch ev resumed => cases resumed <;> simp_all [completed]
      | _ => simp_all [completed]
    rw [completed_append, deliveries_append]
    omega
  · intro handle hs
    exact (h.since handle hs).append hdispatch

theorem signalled_of_queued {id : EId} {as : List (Runtime.Action H)} {r r' : Runtime H}
    {a : Runtime.Action H} {cb : EventCallback H} (h : Signalled id as r cb)
    (hstep : Runtime.Step r a r') (ha : ∃ ev, a = .addEvent ev ∨ a = .poll ev) :
    Signalled id (as ++ [a]) r' cb := by
  refine ⟨Runtime.sole_of_queued h.sole hstep ha, h.exclusive, ?_, ?_⟩
  · have hcounted := h.counted
    rw [completed_append, deliveries_append]
    obtain ⟨ev, rfl | rfl⟩ := ha
    all_goals exact hcounted
  · intro handle hs
    apply (h.since handle hs).append
    obtain ⟨ev, rfl | rfl⟩ := ha <;> simp

/-- A delivery resumes the coroutine that is suspended on the signal, or it is kept. -/
theorem signalled_of_dispatch {id : EId} {as : List (Runtime.Action H)} {r r' : Runtime H}
    {ev : Event} {resumed : Option H} {cb : EventCallback H} (h : Signalled id as r cb)
    (hstep : Runtime.Step r (.dispatch ev resumed) r') (hid : ev.id = id) :
    resumed = cb.suspended ∧
      Signalled id (as ++ [.dispatch ev resumed]) r' (cb.deliver ev.status).2 := by
  have hcounted := h.counted
  obtain ⟨hresumed, hsole⟩ := Runtime.sole_of_dispatch h.sole hstep hid
  have hnone := cb.suspended_deliver ev.status
  subst hid
  refine ⟨hresumed, hsole, fun hne => absurd hnone hne, ?_,
    fun handle hs => absurd (hnone.symm.trans hs) (by simp)⟩
  have hd : deliveries ev.id [(.dispatch ev resumed : Runtime.Action H)] = 1 := by
    simp [deliveries]
  rw [completed_append, deliveries_append, hd]
  cases hs : cb.suspended with
  | none =>
    have hc : completed ev.id [(.dispatch ev resumed : Runtime.Action H)] = 0 := by
      simp [hresumed, hs, completed]
    rw [hc]
    split <;> split at hcounted <;> omega
  | some first =>
    have hc : completed ev.id [(.dispatch ev resumed : Runtime.Action H)] = 1 := by
      simp [hresumed, hs, completed]
    have hstatus : (cb.deliver ev.status).2.status = none := by
      simp [EventCallback.deliver, EventCallback.notify, hs, EventCallback.reset]
    rw [hc, if_pos hstatus]
    omega

/-- An await of a signal that nobody awaits takes the status that is kept, or it is suspended. -/
theorem signalled_of_await {id : EId} {as : List (Runtime.Action H)} {r r' : Runtime H}
    {handle : H} {outcome : Outcome Exn Int} {cb : EventCallback H} (h : Signalled id as r cb)
    (hstep : Runtime.Step r (.await id handle outcome) r') (hs : cb.suspended = none) :
    outcome = cb.status.elim .suspended .returned ∧
      Signalled id (as ++ [.await id handle outcome]) r'
        ((EventCallback.awaitStatus handle).run cb).2 := by
  have hcounted := h.counted
  obtain ⟨houtcome, hsole⟩ := Runtime.sole_of_await h.sole hstep hs
  obtain ⟨_ | status, suspended⟩ := cb
  · -- nothing is kept: the coroutine is suspended
    obtain rfl : suspended = none := hs
    obtain rfl : outcome = .suspended := houtcome
    refine ⟨rfl, hsole, fun _ => rfl, ?_, fun handle' hs' => ?_⟩
    · have hc : completed id [(.await id handle .suspended : Runtime.Action H)] = 0 := rfl
      have hd : deliveries id [(.await id handle .suspended : Runtime.Action H)] = 0 := rfl
      rw [completed_append, deliveries_append, hc, hd]
      exact hcounted
    · obtain rfl := Option.some.inj hs'
      exact ⟨as, [], rfl, by simp⟩
  · -- the status that is kept is taken
    obtain rfl : suspended = none := hs
    obtain rfl : outcome = .returned status := houtcome
    refine ⟨rfl, hsole, fun _ => rfl, ?_, fun handle' hs' => by cases hs'⟩
    have hc : completed id [(.await id handle (.returned status) : Runtime.Action H)] = 1 := by
      simp [completed]
    have hd : deliveries id [(.await id handle (.returned status) : Runtime.Action H)] = 0 := rfl
    rw [if_neg (by simp)] at hcounted
    rw [completed_append, deliveries_append, hc, hd]
    exact hcounted

theorem signalled_step {id : EId} {as : List (Runtime.Action H)} {r r' : Runtime H}
    {a : Runtime.Action H} {cb : EventCallback H} (h : Signalled id as r cb)
    (hr : Runtime.Consistent r) (hstep : Within (OneAtATime id) Runtime.Step r a r') :
    ∃ cb', Signalled id (as ++ [a]) r' cb' := by
  obtain ⟨hone, hstep⟩ := hstep
  by_cases hid : a.id = id
  · cases a with
    | register j => exact absurd hid hone
    | deregister j => exact absurd hid hone
    | destroy j handle => exact absurd hid hone
    | addEvent ev => exact ⟨cb, signalled_of_queued h hstep ⟨ev, .inl rfl⟩⟩
    | poll ev => exact ⟨cb, signalled_of_queued h hstep ⟨ev, .inr rfl⟩⟩
    | dispatch ev resumed => exact ⟨_, (signalled_of_dispatch h hstep hid).2⟩
    | await j handle outcome =>
      obtain rfl : j = id := hid
      have hs : cb.suspended = none := h.sole.suspended_eq_none fun handle' hwaiting =>
        hone rfl (List.mem_map.mpr ⟨_, hwaiting, rfl⟩)
      exact ⟨_, (signalled_of_await h hstep hs).2⟩
  · exact ⟨cb, signalled_of_ne h hr hstep hid⟩

theorem signalled_of_run {id : EId} {before as : List (Runtime.Action H)} {r₀ r : Runtime H}
    (hbefore : Run Runtime.Step (.new H) before r₀) (hnew : Runtime.Unused id r₀)
    (hrun : Run (Within (OneAtATime id) Runtime.Step) r₀ as r) : ∃ cb, Signalled id as r cb := by
  suffices h : Runtime.Consistent r ∧ ∃ cb, Signalled id as r cb from h.2
  apply hrun.trace_invariant (fun as r => Runtime.Consistent r ∧ ∃ cb, Signalled id as r cb)
  · rintro as r a r' ⟨hr, cb, h⟩ hstep
    exact ⟨Runtime.consistent_step hr hstep.2, signalled_step h hr hstep⟩
  · exact ⟨Runtime.consistent_of_run hbefore, .new H, Runtime.sole_of_unused hnew, fun _ => rfl,
      Nat.le_refl 0, fun handle hs => by cases hs⟩

def Kept (id : EId) (r : Runtime H) : Prop :=
  ∃ cb, r.callback id = some cb ∧ cb.suspended = none ∧ cb.status ≠ none

theorem kept_step {id : EId} {r r' : Runtime H} {a : Runtime.Action H} (h : Kept id r)
    (hstep : Within (OneAtATime id) Runtime.Step r a r')
    (ha : ∀ handle outcome, a ≠ .await id handle outcome) : Kept id r' := by
  obtain ⟨cb, hcb, hs, hstatus⟩ := h
  obtain ⟨hone, hstep⟩ := hstep
  by_cases hid : a.id = id
  · subst hid
    have hself := hstep.callback_self
    cases a with
    | register j => exact absurd rfl hone
    | deregister j => exact absurd rfl hone
    | destroy j handle => exact absurd rfl hone
    | addEvent ev => exact ⟨cb, hself.trans hcb, hs, hstatus⟩
    | poll ev => exact ⟨cb, hself.trans hcb, hs, hstatus⟩
    | await j handle outcome => exact absurd rfl (ha handle outcome)
    | dispatch ev resumed =>
      rw [hcb] at hself
      refine ⟨_, hself, cb.suspended_deliver _, ?_⟩
      simp [EventCallback.deliver, EventCallback.notify, hs]
  · exact ⟨cb, (hstep.callback_of_ne hid).trans hcb, hs, hstatus⟩

/-- A signal is a binary semaphore: awaits complete by deliveries, a delivery that finds no coroutine
suspended is kept for the next await, and one that finds a coroutine resumes it. -/
theorem activations {id : EId} {before as : List (Runtime.Action H)} {r₀ r : Runtime H}
    (hbefore : Run Runtime.Step (.new H) before r₀) (hnew : Runtime.Unused id r₀)
    (hrun : Run (Within (OneAtATime id) Runtime.Step) r₀ as r) :
    completed id as ≤ deliveries id as ∧
      ((∀ handle, (handle, id) ∉ r.waiting) →
        ∀ ev resumed r₁ mid r₂ handle outcome r₃, ev.id = id →
          Within (OneAtATime id) Runtime.Step r (.dispatch ev resumed) r₁ →
          Run (Within (OneAtATime id) Runtime.Step) r₁ mid r₂ →
          (∀ handle outcome, .await id handle outcome ∉ mid) →
          Within (OneAtATime id) Runtime.Step r₂ (.await id handle outcome) r₃ →
          ∃ status, outcome = .returned status) ∧
      ∀ handle, (handle, id) ∈ r.waiting → AwaitsSince id as handle ∧
        ∀ ev resumed r', ev.id = id → Runtime.Step r (.dispatch ev resumed) r' →
          resumed = some handle := by
  obtain ⟨cb, h⟩ := signalled_of_run hbefore hnew hrun
  refine ⟨by have := h.counted; omega, ?_, ?_⟩
  · intro hnone ev resumed r₁ mid r₂ handle outcome r₃ hid hdispatch hmid hno hawait
    have hs := h.sole.suspended_eq_none hnone
    obtain ⟨-, h₁⟩ := signalled_of_dispatch h hdispatch.2 hid
    have hkept : Kept id r₁ := by
      refine ⟨_, h₁.sole.callback, cb.suspended_deliver _, ?_⟩
      simp [EventCallback.deliver, EventCallback.notify, hs]
    have hkept' := hmid.trace_invariant
      (fun mid r₂ => (∀ handle outcome, .await id handle outcome ∉ mid) → Kept id r₂)
      (fun mid r₂ a r₂' ih hstep hno => by
        simp only [List.mem_append, List.mem_singleton, not_or] at hno
        exact kept_step (ih fun handle outcome => (hno handle outcome).1) hstep
          fun handle outcome => Ne.symm (hno handle outcome).2)
      (fun _ => hkept) hno
    obtain ⟨cb₂, hcb₂, -, hstatus⟩ := hkept'
    obtain ⟨status, hstatus⟩ := Option.ne_none_iff_exists'.mp hstatus
    obtain ⟨cb₃, hcb₃, houtcome, -⟩ := hawait.2.await_eq
    obtain rfl := Option.some.inj (hcb₂.symm.trans hcb₃)
    exact ⟨status, by rw [houtcome, EventCallback.awaitStatus_of_status hstatus]⟩
  · intro handle hwaiting
    have hs := (h.sole.waiting handle).mp hwaiting
    refine ⟨h.since handle hs, fun ev resumed r' hid hstep => ?_⟩
    rw [(signalled_of_dispatch h hstep hid).1, hs]

/-- An activation that comes before the await. -/
theorem activations_early : ∃ r₀ r : Runtime Nat,
    Run Runtime.Step (.new Nat) [.register 1] r₀ ∧
    Run (Within (OneAtATime 1) Runtime.Step) r₀
      [activate 1, .dispatch ⟨1, 0⟩ none, .await 1 7 (.returned 0)] r ∧
    completed (H := Nat) 1 [activate 1, .dispatch ⟨1, 0⟩ none, .await 1 7 (.returned 0)] ≤
      deliveries (H := Nat) 1 [activate 1, .dispatch ⟨1, 0⟩ none, .await 1 7 (.returned 0)] := by
  obtain ⟨r₀, r, hbefore, hnew, hrun⟩ : ∃ r₀ r : Runtime Nat,
      Run Runtime.Step (.new Nat) [.register 1] r₀ ∧ Runtime.Unused 1 r₀ ∧
      Run (Within (OneAtATime 1) Runtime.Step) r₀
        [activate 1, .dispatch ⟨1, 0⟩ none, .await 1 7 (.returned 0)] r :=
    ⟨_, _, .cons (.register _) (.nil _), ⟨rfl, fun handle h => by cases h⟩,
      .cons ⟨trivial, .addEvent _ _⟩ (.cons ⟨trivial, .dispatch _ _ _ rfl⟩
        (.cons ⟨fun _ => by decide, .await _ 1 7 rfl (by decide)⟩ (.nil _)))⟩
  exact ⟨r₀, r, hbefore, hrun, (activations hbefore hnew hrun).1⟩

end AsyncSignal

end CppEvent
