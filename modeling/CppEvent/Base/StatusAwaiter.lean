import CppEvent.Base.Runtime

/-!
# `status_awaiter`

A callback keeps one handle. A coroutine that awaits it while another is suspended on it is turned
away by `set_handle`, but the `status_awaiter` that its exception destroys resets the callback, and
with it the handle of the first coroutine: `lost_of_rejected`.
-/

namespace CppEvent

open Coroutine Transition

variable {H : Type}

namespace Runtime

variable [DecidableEq H]

/-- The coroutine is still on the callback, and the next event for it resumes it. -/
def Intact (r : Runtime H) (id : EId) (handle : H) : Prop :=
  (∃ cb, r.callback id = some cb ∧ cb.suspended = some handle) ∧
    ∀ status, (r.loop.bus.notify id status).1 = some handle

/-- The coroutine waits on no callback that would resume it. -/
def Lost (r : Runtime H) (id : EId) (handle : H) : Prop :=
  (handle, id) ∈ r.waiting ∧ ∀ j cb, r.callback j = some cb → cb.suspended ≠ some handle

theorem lost_step {r r' : Runtime H} {a : Action H} {id : EId} {handle : H} (h : Lost r id handle)
    (hstep : Step r a r') (ha : ∀ j, a ≠ .destroy j handle) :
    Lost r' id handle ∧ ∀ ev, a ≠ .dispatch ev (some handle) := by
  obtain ⟨hwaiting, hnone⟩ := h
  have hdispatch : ∀ ev, a ≠ .dispatch ev (some handle) := by
    rintro ev rfl
    obtain ⟨hresumed, -⟩ := hstep.dispatch_eq
    obtain ⟨cb, hcb, hs⟩ := Option.bind_eq_some_iff.mp hresumed.symm
    exact hnone _ cb hcb hs
  refine ⟨⟨?_, fun j cb hcb hs => ?_⟩, hdispatch⟩
  · rw [hstep.mem_waiting]
    refine .inr ⟨hwaiting, ?_⟩
    rintro (⟨ev, hev⟩ | ⟨j, hj⟩)
    · exact hdispatch ev hev
    · exact ha j hj
  · rcases hstep.suspended hcb hs with rfl | ⟨hcb₀, -⟩
    · obtain ⟨-, -, -, hfree⟩ := hstep.await_eq
      exact hfree id hwaiting
    · exact hnone j cb hcb₀ hs

theorem callback_of_rejected {r r' : Runtime H} {id : EId} {second : H} {e : Exn}
    (hstep : Step r (.await id second (.threw e)) r') : r'.callback id = some (.new H) := by
  obtain ⟨cb, hcb, houtcome, -⟩ := hstep.await_eq
  have hself : r'.callback id = _ := hstep.callback_self
  rw [hself, Action.apply, Action.id, hcb]
  obtain ⟨_ | status, _ | first⟩ := cb
  · cases houtcome
  · rfl
  · cases houtcome
  · cases houtcome

/-- A coroutine on whose callback another await is turned away is no longer on it, the next event
resumes nobody, and no later one resumes this coroutine, however the run goes on. -/
theorem lost_of_rejected {as : List (Action H)} {r r' : Runtime H} {id : EId} {first second : H}
    {e : Exn} (hrun : Run Step (new H) as r) (hfirst : (first, id) ∈ r.waiting)
    (hstep : Step r (.await id second (.threw e)) r') :
    ¬ Intact r' id first ∧ (∀ status, (r'.loop.bus.notify id status).1 = none) ∧
      ∀ bs r'', Run Step r' bs r'' → (∀ j, .destroy j first ∉ bs) →
        (first, id) ∈ r''.waiting ∧ ∀ ev, .dispatch ev (some first) ∉ bs := by
  have hconsistent := consistent_of_run hrun
  have hcallback := callback_of_rejected hstep
  have hnotify : ∀ status, (r'.loop.bus.notify id status).1 = none := by
    intro status
    rw [EventBus.notify_of_callback hcallback]
    rfl
  refine ⟨fun hintact => ?_, hnotify, fun bs r'' hrun' hbs => ?_⟩
  · have := hintact.2 0
    rw [hnotify] at this
    cases this
  have hlost : Lost r' id first := by
    constructor
    · rw [hstep.mem_waiting]
      exact .inr ⟨hfirst, by rintro (⟨ev, hev⟩ | ⟨j, hj⟩) <;> simp_all⟩
    · intro j cb hcb hs
      rcases hstep.suspended hcb hs with ha | ⟨hcb₀, -⟩
      · simp at ha
      · obtain rfl := hconsistent.once first _ _ (hconsistent.waits j cb first hcb₀ hs) hfirst
        obtain rfl := Option.some.inj (hcb.symm.trans hcallback)
        cases hs
  have hall := hrun'.trace_invariant
    (fun bs r'' => (∀ j, .destroy j first ∉ bs) →
      Lost r'' id first ∧ ∀ ev, .dispatch ev (some first) ∉ bs)
    (fun bs s b s' ih hs hbs' => ?_) (fun _ => ⟨hlost, by simp⟩)
  · obtain ⟨⟨hwaiting, -⟩, hdispatch⟩ := hall hbs
    exact ⟨hwaiting, hdispatch⟩
  · simp only [List.mem_append, List.mem_singleton, not_or] at hbs' ⊢
    obtain ⟨hlost', hdispatch⟩ := ih fun j => (hbs' j).1
    obtain ⟨hlost'', hlast⟩ := lost_step hlost' hs fun j => Ne.symm (hbs' j).2
    exact ⟨hlost'', fun ev => ⟨hdispatch ev, Ne.symm (hlast ev)⟩⟩

/-- The second of two coroutines that await one callback, and the event that comes then. -/
theorem lost_of_rejected_two : ∃ r r' : Runtime Nat,
    Run Step (new Nat) [.register 1, .await 1 0 .suspended] r ∧
    Step r (.await 1 1 (.threw (.runtimeError "event_callback set_handle: handle already set"))) r' ∧
    (r'.loop.bus.notify 1 5).1 = none := by
  obtain ⟨r, r', hrun, hfirst, hstep⟩ : ∃ r r' : Runtime Nat,
      Run Step (new Nat) [.register 1, .await 1 0 .suspended] r ∧ (0, 1) ∈ r.waiting ∧
      Step r (.await 1 1
        (.threw (.runtimeError "event_callback set_handle: handle already set"))) r' :=
    ⟨_, _, .cons (.register _) (.cons (.await _ 1 0 rfl (by decide)) (.nil _)), by decide,
      .await _ 1 1 rfl (by decide)⟩
  exact ⟨r, r', hrun, hstep, (lost_of_rejected hrun hfirst hstep).2.1 5⟩

/-- A reachable state in which a second await is turned away, and does not leave the first one
intact. -/
theorem not_intact_of_rejected : ∃ r r' : Runtime Nat,
    Run Step (new Nat) [.register 1, .await 1 0 .suspended] r ∧ (0, 1) ∈ r.waiting ∧
    Step r (.await 1 1 (.threw (.runtimeError "event_callback set_handle: handle already set"))) r' ∧
    ¬ Intact r' 1 0 := by
  refine ⟨_, _, .cons (.register _) (.cons (.await _ 1 0 rfl (by decide)) (.nil _)), by decide,
    .await _ 1 1 rfl (by decide), fun h => ?_⟩
  exact absurd (h.2 5) (by decide)

end Runtime

end CppEvent
