import CppEvent.Base.Runtime

/-!
# `async_queue`

A queue whose consumer waits on a callback of its own. `push` signals only when it finds the queue
empty; `await_items` waits only while it does, and looks again after every wake-up, so a wake-up that
comes too late or for nothing does no harm (`fifo_no_lost_wakeup`).
-/

namespace CppEvent

open Coroutine Transition

variable {T H : Type}

/-- `async_queue`, with the loop that it belongs to; the id of its callback is a parameter of what
follows. -/
structure AsyncQueue (T H : Type) where
  items : List T
  runtime : Runtime H

namespace AsyncQueue

def withRuntime (q : AsyncQueue T H) (r : Runtime H) : AsyncQueue T H := { q with runtime := r }

def push (id : EId) (item : T) : Coro (AsyncQueue T H) Exn Unit := do
  let q ← Coro.get
  if q.items.isEmpty then
    Coro.modify fun q => q.withRuntime
      { q.runtime with loop := q.runtime.loop.addEvent { id := id, status := 0 } }
  Coro.modify fun q => { q with items := q.items ++ [item] }

/-- `front` and `pop`, of a queue that is not empty. -/
def pop : Coro (AsyncQueue T H) Exn T := ⟨fun q =>
  match q.items with
  | [] => (.undefined, q)
  | item :: items => (.returned item, { q with items := items })⟩

def awaitRound (id : EId) (handle : H) : Unit → Coro (AsyncQueue T H) Exn (Unit ⊕ Nat) := fun _ => do
  let q ← Coro.get
  if q.items.isEmpty then do
    let _ ← Coro.focus runtime (fun r q => q.withRuntime r) (Runtime.awaitStatus id handle)
    pure (.inl ())
  else pure (.inr q.items.length)

/-- `await_items`, from its start or from where it is resumed, up to where it is suspended or returns.
A status that was kept lasts for one round. -/
def awaitItems (id : EId) (handle : H) : Coro (AsyncQueue T H) Exn Nat :=
  Coro.loop (fun _ => 2) (awaitRound id handle) ()

inductive Action (T H : Type) where
  | push (item : T)
  | pop (item : T)
  | awaitItems (handle : H) (outcome : Outcome Exn Nat)
  | resume (ev : Event) (handle : H) (outcome : Outcome Exn Nat)
  | dispatch (ev : Event)
  | other (a : Runtime.Action H)

variable [DecidableEq H]

/-- The steps of a queue with one consumer: calls of `await_items` do not overlap. An event for the
queue's callback resumes the consumer, if it waits. Everything that is not about this callback may
happen to the loop. -/
inductive Step (id : EId) : AsyncQueue T H → Action T H → AsyncQueue T H → Prop
  | push {q q' : AsyncQueue T H} (item : T) (hrun : (push id item).run q = (.returned (), q')) :
      Step id q (.push item) q'
  | pop {q q' : AsyncQueue T H} (item : T) (hrun : pop.run q = (.returned item, q')) :
      Step id q (.pop item) q'
  | awaitItems {q q' : AsyncQueue T H} (handle : H) (outcome : Outcome Exn Nat)
      (hone : id ∉ q.runtime.waiting.map Prod.snd)
      (hfree : handle ∉ q.runtime.waiting.map Prod.fst)
      (hrun : (awaitItems id handle).run q = (outcome, q')) :
      Step id q (.awaitItems handle outcome) q'
  | resume {q q' : AsyncQueue T H} {r : Runtime H} (ev : Event) (handle : H)
      (outcome : Outcome Exn Nat) (hid : ev.id = id)
      (hstep : Runtime.Step q.runtime (.dispatch ev (some handle)) r)
      (hrun : (awaitItems id handle).run (q.withRuntime r) = (outcome, q')) :
      Step id q (.resume ev handle outcome) q'
  | dispatch {q : AsyncQueue T H} {r : Runtime H} (ev : Event) (hid : ev.id = id)
      (hstep : Runtime.Step q.runtime (.dispatch ev none) r) :
      Step id q (.dispatch ev) (q.withRuntime r)
  | other {q : AsyncQueue T H} {r : Runtime H} (a : Runtime.Action H) (hid : a.id ≠ id)
      (hstep : Runtime.Step q.runtime a r) : Step id q (.other a) (q.withRuntime r)

/-! ## `await_items` -/

theorem awaitRound_run {id : EId} {handle : H} {q : AsyncQueue T H} {cb : EventCallback H}
    (hitems : q.items = []) (hcb : q.runtime.callback id = some cb)
    (hfree : handle ∉ q.runtime.waiting.map Prod.fst) :
    ∃ r, Runtime.Step q.runtime
        (.await id handle ((EventCallback.awaitStatus handle).run cb).1) r ∧
      r.loop.events = q.runtime.loop.events ∧
      (∀ status, ((EventCallback.awaitStatus handle).run cb).1 = .returned status →
        (awaitRound id handle ()).run q = (.returned (.inl ()), q.withRuntime r)) ∧
      (((EventCallback.awaitStatus handle).run cb).1 = .suspended →
        (awaitRound id handle ()).run q = (.suspended, q.withRuntime r)) := by
  have hstep := Runtime.Step.await q.runtime id handle (by rw [hcb]; rfl) hfree
  have hrun := Runtime.run_awaitStatus hcb handle
  rw [hrun] at hstep
  have hfocus : (Coro.focus runtime (fun r q => q.withRuntime r)
      (Runtime.awaitStatus id handle)).run q = _ := Coro.run_focus hrun
  refine ⟨_, hstep, rfl, fun status hreturned => ?_, fun hsuspended => ?_⟩
  · rw [hreturned] at hfocus
    simp only [awaitRound, Coro.run_get_bind, hitems, List.isEmpty_nil, if_pos]
    rw [Coro.bind_returned _ hfocus, hreturned, Coro.run_pure]
  · rw [hsuspended] at hfocus
    simp only [awaitRound, Coro.run_get_bind, hitems, List.isEmpty_nil, if_pos]
    rw [Coro.bind_suspended _ hfocus, hsuspended]

/-- `await_items` returns over a queue with items, and suspends over an empty one: a kept status
makes it look again once. -/
theorem awaitItems_run {id : EId} {handle : H} {q : AsyncQueue T H} {cb : EventCallback H}
    (hr : Runtime.Consistent q.runtime) (hsole : Runtime.Sole id q.runtime cb)
    (hs : cb.suspended = none) (hfree : handle ∉ q.runtime.waiting.map Prod.fst) :
    q.items ≠ [] ∧ (awaitItems id handle).run q = (.returned q.items.length, q) ∨
      q.items = [] ∧ ∃ r cb', (awaitItems id handle).run q = (.suspended, q.withRuntime r) ∧
        r.loop.events = q.runtime.loop.events ∧ Runtime.Consistent r ∧ Runtime.Sole id r cb' := by
  by_cases hitems : q.items = []
  · right
    refine ⟨hitems, ?_⟩
    obtain ⟨r₁, hstep₁, hevents₁, hreturned₁, hsuspended₁⟩ :=
      awaitRound_run hitems hsole.callback hfree
    obtain ⟨houtcome₁, hsole₁⟩ := Runtime.sole_of_await hsole hstep₁ hs
    have hr₁ := Runtime.consistent_step hr hstep₁
    cases hstatus : cb.status with
    | none =>
      rw [hstatus] at houtcome₁
      refine ⟨r₁, _, ?_, hevents₁, hr₁, hsole₁⟩
      rw [awaitItems, Coro.run_loop, Coro.iterate, Coro.bind_suspended _ (hsuspended₁ houtcome₁)]
    | some status =>
      rw [hstatus] at houtcome₁
      rw [EventCallback.awaitStatus_of_status hstatus] at hsole₁
      have hfree₁ : handle ∉ r₁.waiting.map Prod.fst := by
        intro hmem
        obtain ⟨⟨handle', j⟩, hw, rfl⟩ := List.mem_map.mp hmem
        rcases (hstep₁.mem_waiting handle' j).mp hw with ha | ⟨hw, -⟩
        · rw [houtcome₁] at ha
          simp at ha
        · exact hfree (List.mem_map.mpr ⟨_, hw, rfl⟩)
      obtain ⟨r₂, hstep₂, hevents₂, -, hsuspended₂⟩ :=
        awaitRound_run (q := q.withRuntime r₁) hitems hsole₁.callback hfree₁
      obtain ⟨-, hsole₂⟩ := Runtime.sole_of_await hsole₁ hstep₂ rfl
      refine ⟨r₂, _, ?_, hevents₂.trans hevents₁, Runtime.consistent_step hr₁ hstep₂, hsole₂⟩
      rw [awaitItems, Coro.run_loop, Coro.iterate_inl (hreturned₁ status houtcome₁), Coro.iterate,
        Coro.bind_suspended _ (hsuspended₂ rfl)]
      rfl
  · left
    refine ⟨hitems, ?_⟩
    have hround : (awaitRound id handle ()).run q = (.returned (.inr q.items.length), q) := by
      simp only [awaitRound, Coro.run_get_bind, List.isEmpty_iff, hitems, if_false, Coro.run_pure]
    rw [awaitItems, Coro.run_loop, Coro.iterate_inr hround]

/-! ## No lost wake-up -/

/-- The consumer waits with a wake-up under way, if there is something to wake up for. -/
structure Waking (id : EId) (q : AsyncQueue T H) : Prop where
  consistent : Runtime.Consistent q.runtime
  sole : ∃ cb, Runtime.Sole id q.runtime cb
  wake : (∃ handle, (handle, id) ∈ q.runtime.waiting) → q.items ≠ [] →
    ∃ ev ∈ q.runtime.loop.events, ev.id = id

def new (T : Type) (r : Runtime H) : AsyncQueue T H where
  items := []
  runtime := r

def pushed (as : List (Action T H)) : List T :=
  as.filterMap fun
    | .push item => some item
    | _ => none

def popped (as : List (Action T H)) : List T :=
  as.filterMap fun
    | .pop item => some item
    | _ => none

omit [DecidableEq H] in
theorem push_run (id : EId) (item : T) (q : AsyncQueue T H) :
    (push id item).run q = (.returned (), {
      items := q.items ++ [item]
      runtime := if q.items = [] then
        { q.runtime with loop := q.runtime.loop.addEvent { id := id, status := 0 } }
      else q.runtime }) := by
  obtain ⟨_ | ⟨x, items⟩, r⟩ := q <;> rfl

theorem waking_of_push {id : EId} {q q' : AsyncQueue T H} {item : T} (h : Waking id q)
    (hrun : (push id item).run q = (.returned (), q')) : Waking id q' := by
  rw [push_run] at hrun
  obtain rfl := (Prod.mk.inj hrun).2
  obtain ⟨cb, hsole⟩ := h.sole
  by_cases hitems : q.items = []
  · -- the wake-up is queued with the item
    have hstep := Runtime.Step.addEvent q.runtime { id := id, status := 0 }
    simp only [hitems, if_pos]
    refine ⟨Runtime.consistent_step h.consistent hstep,
      ⟨cb, Runtime.sole_of_queued hsole hstep ⟨_, .inl rfl⟩⟩, fun _ _ => ?_⟩
    exact ⟨_, List.mem_append_right _ (List.mem_singleton_self _), rfl⟩
  · simp only [hitems, if_false]
    exact ⟨h.consistent, ⟨cb, hsole⟩, fun hw _ => h.wake hw hitems⟩

/-- `await_items` leaves the items alone, and the consumer waits only for an empty queue. -/
theorem waking_of_awaitItems {id : EId} {handle : H} {q q' : AsyncQueue T H}
    {outcome : Outcome Exn Nat} {cb : EventCallback H} (hr : Runtime.Consistent q.runtime)
    (hsole : Runtime.Sole id q.runtime cb) (hs : cb.suspended = none)
    (hfree : handle ∉ q.runtime.waiting.map Prod.fst)
    (hrun : (awaitItems id handle).run q = (outcome, q')) :
    Waking id q' ∧ q'.items = q.items ∧
      ∀ n, outcome = .returned n → q'.items ≠ [] ∧ n = q'.items.length := by
  rcases awaitItems_run hr hsole hs hfree with ⟨hitems, hreturned⟩ |
    ⟨hitems, r, cb', hsuspended, hevents, hr', hsole'⟩
  · obtain ⟨rfl, rfl⟩ := Prod.mk.inj (hrun.symm.trans hreturned)
    refine ⟨⟨hr, ⟨cb, hsole⟩, ?_⟩, rfl, fun n hn => ⟨hitems, (Outcome.returned.inj hn).symm⟩⟩
    rintro ⟨handle', hw⟩
    rw [hsole.waiting, hs] at hw
    cases hw
  · obtain ⟨rfl, rfl⟩ := Prod.mk.inj (hrun.symm.trans hsuspended)
    exact ⟨⟨hr', ⟨cb', hsole'⟩, fun _ hne => absurd hitems hne⟩, rfl, fun n hn => by cases hn⟩

theorem waking_of_call {id : EId} {handle : H} {q q' : AsyncQueue T H}
    {outcome : Outcome Exn Nat} (h : Waking id q) (hone : id ∉ q.runtime.waiting.map Prod.snd)
    (hfree : handle ∉ q.runtime.waiting.map Prod.fst)
    (hrun : (awaitItems id handle).run q = (outcome, q')) :
    Waking id q' ∧ q'.items = q.items ∧
      ∀ n, outcome = .returned n → q'.items ≠ [] ∧ n = q'.items.length := by
  obtain ⟨cb, hsole⟩ := h.sole
  have hs := hsole.suspended_eq_none fun handle' hw => hone (List.mem_map.mpr ⟨_, hw, rfl⟩)
  exact waking_of_awaitItems h.consistent hsole hs hfree hrun

theorem waking_of_resume {id : EId} {handle : H} {q q' : AsyncQueue T H} {r : Runtime H}
    {ev : Event} {outcome : Outcome Exn Nat} (h : Waking id q) (hid : ev.id = id)
    (hstep : Runtime.Step q.runtime (.dispatch ev (some handle)) r)
    (hrun : (awaitItems id handle).run (q.withRuntime r) = (outcome, q')) :
    Waking id q' ∧ q'.items = q.items ∧
      ∀ n, outcome = .returned n → q'.items ≠ [] ∧ n = q'.items.length := by
  obtain ⟨cb, hsole⟩ := h.sole
  obtain ⟨-, hsole'⟩ := Runtime.sole_of_dispatch hsole hstep hid
  have hfree : handle ∉ r.waiting.map Prod.fst := by
    intro hmem
    obtain ⟨⟨handle', j⟩, hw, rfl⟩ := List.mem_map.mp hmem
    rcases (hstep.mem_waiting handle' j).mp hw with ha | ⟨-, hends⟩
    · cases ha
    · exact hends (.inl ⟨ev, rfl⟩)
  exact waking_of_awaitItems (q := q.withRuntime r) (Runtime.consistent_step h.consistent hstep)
    hsole' (cb.suspended_deliver _) hfree hrun

theorem waking_of_other {id : EId} {q : AsyncQueue T H} {r : Runtime H} {a : Runtime.Action H}
    (h : Waking id q) (hid : a.id ≠ id) (hstep : Runtime.Step q.runtime a r) :
    Waking id (q.withRuntime r) := by
  obtain ⟨cb, hsole⟩ := h.sole
  have hsole' := Runtime.sole_of_ne hsole h.consistent hstep hid
  refine ⟨Runtime.consistent_step h.consistent hstep, ⟨cb, hsole'⟩, ?_⟩
  rintro ⟨handle, hw⟩ hne
  have hw' := (hsole.waiting handle).mpr ((hsole'.waiting handle).mp hw)
  obtain ⟨ev, hev, hevid⟩ := h.wake ⟨handle, hw'⟩ hne
  rcases hstep.events with ⟨ev', resumed, rfl, hevents⟩ | ⟨-, hevents⟩
  · rw [hevents] at hev
    rcases List.mem_cons.mp hev with rfl | hev
    · exact absurd hevid hid
    · exact ⟨ev, hev, hevid⟩
  · refine ⟨ev, ?_, hevid⟩
    change ev ∈ r.loop.events
    rw [hevents]
    exact List.mem_append_left _ hev

theorem waking_step {id : EId} {q q' : AsyncQueue T H} {a : Action T H} (h : Waking id q)
    (hstep : Step id q a q') :
    Waking id q' ∧ popped [a] ++ q'.items = q.items ++ pushed [a] := by
  cases hstep with
  | push item hrun =>
    refine ⟨waking_of_push h hrun, ?_⟩
    rw [push_run] at hrun
    obtain rfl := (Prod.mk.inj hrun).2
    rfl
  | pop item hrun =>
    obtain ⟨items, r⟩ := q
    cases items with
    | nil => cases hrun
    | cons x items =>
      obtain ⟨hx, rfl⟩ := Prod.mk.inj hrun
      obtain rfl := Outcome.returned.inj hx
      exact ⟨⟨h.consistent, h.sole, fun hw _ => h.wake hw (by simp)⟩, (List.append_nil _).symm⟩
  | awaitItems handle outcome hone hfree hrun =>
    obtain ⟨hwaking, hitems, -⟩ := waking_of_call h hone hfree hrun
    exact ⟨hwaking, hitems.trans (List.append_nil _).symm⟩
  | resume ev handle outcome hid hstep hrun =>
    obtain ⟨hwaking, hitems, -⟩ := waking_of_resume h hid hstep hrun
    exact ⟨hwaking, hitems.trans (List.append_nil _).symm⟩
  | dispatch ev hid hstep =>
    obtain ⟨cb, hsole⟩ := h.sole
    obtain ⟨-, hsole'⟩ := Runtime.sole_of_dispatch hsole hstep hid
    refine ⟨⟨Runtime.consistent_step h.consistent hstep, ⟨_, hsole'⟩, ?_⟩,
      (List.append_nil _).symm⟩
    rintro ⟨handle, hw⟩
    have hs := (hsole'.waiting handle).mp hw
    rw [cb.suspended_deliver] at hs
    cases hs
  | other a hid hstep => exact ⟨waking_of_other h hid hstep, (List.append_nil _).symm⟩

theorem waking_of_run {id : EId} {before : List (Runtime.Action H)} {as : List (Action T H)}
    {r₀ : Runtime H} {q : AsyncQueue T H} (hbefore : Run Runtime.Step (.new H) before r₀)
    (hnew : Runtime.Unused id r₀) (hrun : Run (Step id) (new T r₀) as q) :
    Waking id q ∧ pushed as = popped as ++ q.items := by
  apply hrun.trace_invariant (fun as q => Waking id q ∧ pushed as = popped as ++ q.items)
  · rintro as q a q' ⟨h, hfifo⟩ hstep
    obtain ⟨h', hitems⟩ := waking_step h hstep
    refine ⟨h', ?_⟩
    have hpushed : pushed (as ++ [a]) = pushed as ++ pushed [a] := List.filterMap_append
    have hpopped : popped (as ++ [a]) = popped as ++ popped [a] := List.filterMap_append
    rw [hpushed, hpopped, hfifo, List.append_assoc, List.append_assoc, hitems]
  · refine ⟨⟨Runtime.consistent_of_run hbefore, ⟨_, Runtime.sole_of_unused hnew⟩, ?_⟩, rfl⟩
    rintro ⟨handle, hw⟩
    exact absurd hw (hnew.2 handle)

/-- While the consumer waits and there are items, its wake-up is queued; `await_items` returns only
over a queue with items; and items leave in the order in which they came. -/
theorem fifo_no_lost_wakeup {id : EId} {before : List (Runtime.Action H)} {as : List (Action T H)}
    {r₀ : Runtime H} {q : AsyncQueue T H} (hbefore : Run Runtime.Step (.new H) before r₀)
    (hnew : Runtime.Unused id r₀) (hrun : Run (Step id) (new T r₀) as q) :
    (∀ handle, (handle, id) ∈ q.runtime.waiting → q.items ≠ [] →
        ∃ ev ∈ q.runtime.loop.events, ev.id = id) ∧
      (∀ handle n q', (Step id q (.awaitItems handle (.returned n)) q' ∨
          ∃ ev, Step id q (.resume ev handle (.returned n)) q') →
        q'.items ≠ [] ∧ n = q'.items.length) ∧
      pushed as = popped as ++ q.items := by
  obtain ⟨h, hfifo⟩ := waking_of_run hbefore hnew hrun
  refine ⟨fun handle hw hne => h.wake ⟨handle, hw⟩ hne, ?_, hfifo⟩
  rintro handle n q' (hstep | ⟨ev, hstep⟩)
  · cases hstep with
    | awaitItems _ _ hone hfree hrun => exact (waking_of_call h hone hfree hrun).2.2 n rfl
  · cases hstep with
    | resume _ _ _ hid hstep hrun => exact (waking_of_resume h hid hstep hrun).2.2 n rfl

/-- Two items come while the consumer waits, and the first of them leaves once it has been woken. -/
theorem fifo_no_lost_wakeup_two : ∃ (r₀ : Runtime Nat) (q₁ q₂ : AsyncQueue Nat Nat),
    Run Runtime.Step (.new Nat) [.register 1] r₀ ∧
    Run (Step 1) (new Nat r₀) [.awaitItems 7 .suspended, .push 5, .push 6] q₁ ∧
    Run (Step 1) q₁ [.resume ⟨1, 0⟩ 7 (.returned 2), .pop 5] q₂ ∧
    ((7, 1) ∈ q₁.runtime.waiting ∧ q₁.items ≠ [] ∧ ∃ ev ∈ q₁.runtime.loop.events, ev.id = 1) ∧
    [5, 6] = [5] ++ q₂.items := by
  obtain ⟨r₀, q₁, q₂, hbefore, hnew, hwaits, hwoken, hw, hne⟩ :
      ∃ (r₀ : Runtime Nat) (q₁ q₂ : AsyncQueue Nat Nat),
        Run Runtime.Step (.new Nat) [.register 1] r₀ ∧ Runtime.Unused 1 r₀ ∧
        Run (Step 1) (new Nat r₀) [.awaitItems 7 .suspended, .push 5, .push 6] q₁ ∧
        Run (Step 1) q₁ [.resume ⟨1, 0⟩ 7 (.returned 2), .pop 5] q₂ ∧
        (7, 1) ∈ q₁.runtime.waiting ∧ q₁.items ≠ [] :=
    ⟨_, _, _, .cons (.register _) (.nil _), ⟨rfl, fun handle h => by cases h⟩,
      .cons (.awaitItems 7 _ (by decide) (by decide) rfl)
        (.cons (.push 5 rfl) (.cons (.push 6 rfl) (.nil _))),
      .cons (.resume ⟨1, 0⟩ 7 _ rfl (.dispatch _ _ [] rfl) rfl) (.cons (.pop 5 rfl) (.nil _)),
      by decide, by decide⟩
  exact ⟨r₀, q₁, q₂, hbefore, hwaits, hwoken,
    ⟨hw, hne, (fifo_no_lost_wakeup hbefore hnew hwaits).1 7 hw hne⟩,
    (fifo_no_lost_wakeup hbefore hnew (hwaits.append hwoken)).2.2⟩

end AsyncQueue

end CppEvent
