import CppEvent.Base.Event
import CppEvent.Library.Transition

/-!
# Runs of the event loop

An event loop with the coroutines that are suspended on its callbacks (`Runtime`), and what can
happen to it: a resumed coroutine runs until it is suspended again, and whatever it does to the loop
by then (new callbacks, callbacks that it destroys, events, awaits) are steps that follow the
delivery. `routing` says which callback an event reaches.
-/

namespace CppEvent

open Coroutine Transition

variable {H : Type}

/-- A loop, and the coroutines whose `co_await` of a callback neither has finished nor was
destroyed. -/
structure Runtime (H : Type) where
  loop : EventLoop H
  waiting : List (H × EId)

namespace Runtime

def new (H : Type) : Runtime H where
  loop := .empty H
  waiting := []

abbrev callback (r : Runtime H) (id : EId) : Option (EventCallback H) := r.loop.bus.callback id

/-- `co_await callback.await_status()` of the callback with this id. -/
def awaitStatus (id : EId) (handle : H) : Coro (Runtime H) Exn Int := ⟨fun r =>
  match r.callback id with
  | none => (.undefined, r)
  | some cb =>
      let (outcome, cb') := (EventCallback.awaitStatus handle).run cb
      (outcome, {
        loop := { r.loop with bus := r.loop.bus.store id cb' }
        waiting := if outcome = .suspended then r.waiting ++ [(handle, id)] else r.waiting })⟩

/-- What can happen to a loop, with the ids, the handles and the outcomes that come of it. -/
inductive Action (H : Type) where
  | register (id : EId)
  | deregister (id : EId)
  | addEvent (ev : Event)
  | poll (ev : Event)
  | dispatch (ev : Event) (resumed : Option H)
  | await (id : EId) (handle : H) (outcome : Outcome Exn Int)
  | destroy (id : EId) (handle : H)
  deriving DecidableEq

def Action.id : Action H → EId
  | .register id | .deregister id | .await id _ _ | .destroy id _ => id
  | .addEvent ev | .poll ev | .dispatch ev _ => ev.id

def registered (as : List (Action H)) : List EId :=
  as.filterMap fun
    | .register id => some id
    | _ => none

def queued (as : List (Action H)) : List Event :=
  as.filterMap fun
    | .addEvent ev | .poll ev => some ev
    | _ => none

def delivered (as : List (Action H)) : List Event :=
  as.filterMap fun
    | .dispatch ev _ => some ev
    | _ => none

theorem registered_append (as bs : List (Action H)) :
    registered (as ++ bs) = registered as ++ registered bs := List.filterMap_append

theorem queued_append (as bs : List (Action H)) : queued (as ++ bs) = queued as ++ queued bs :=
  List.filterMap_append

theorem delivered_append (as bs : List (Action H)) :
    delivered (as ++ bs) = delivered as ++ delivered bs := List.filterMap_append

theorem mem_registered {as : List (Action H)} {id : EId} :
    id ∈ registered as ↔ .register id ∈ as := by
  simp only [registered, List.mem_filterMap]
  constructor
  · rintro ⟨a, ha, h⟩
    cases a <;> simp at h
    rwa [h] at ha
  · exact fun h => ⟨_, h, rfl⟩

/-- The steps of a loop. A coroutine that is suspended does not await anything else; `poll` is called
while the queue is empty. -/
inductive Step [DecidableEq H] : Runtime H → Action H → Runtime H → Prop
  | register (r : Runtime H) :
      Step r (.register r.loop.bus.registerEventCallback.1)
        { r with loop.bus := r.loop.bus.registerEventCallback.2 }
  | deregister (r : Runtime H) (id : EId) (hcallback : (r.callback id).isSome) :
      Step r (.deregister id) { r with loop.bus := r.loop.bus.deregisterEventCallback id }
  | addEvent (r : Runtime H) (ev : Event) :
      Step r (.addEvent ev) { r with loop := r.loop.addEvent ev }
  | poll (r : Runtime H) (ev : Event) (hempty : r.loop.events = []) :
      Step r (.poll ev) { r with loop := r.loop.addEvent ev }
  | dispatch (r : Runtime H) (ev : Event) (events : List Event)
      (hevents : r.loop.events = ev :: events) :
      Step r (.dispatch ev (r.loop.bus.deliver ev.id ev.status).1)
        { loop := { events := events, bus := (r.loop.bus.deliver ev.id ev.status).2 }
          waiting := r.waiting.filter fun p =>
            some p.1 ≠ (r.loop.bus.deliver ev.id ev.status).1 }
  | await (r : Runtime H) (id : EId) (handle : H) (hcallback : (r.callback id).isSome)
      (hfree : handle ∉ r.waiting.map Prod.fst) :
      Step r (.await id handle ((awaitStatus id handle).run r).1)
        ((awaitStatus id handle).run r).2
  | destroy (r : Runtime H) (id : EId) (handle : H) (hwaiting : (handle, id) ∈ r.waiting)
      (hcallback : (r.callback id).isSome) :
      Step r (.destroy id handle)
        { loop := { r.loop with bus := r.loop.bus.reset id }
          waiting := r.waiting.filter fun p => p.1 ≠ handle }

/-! ## What a step does to a callback -/

theorem run_awaitStatus {r : Runtime H} {id : EId} {cb : EventCallback H}
    (hcb : r.callback id = some cb) (handle : H) :
    (awaitStatus id handle).run r = (((EventCallback.awaitStatus handle).run cb).1,
      { loop := { r.loop with
          bus := r.loop.bus.store id ((EventCallback.awaitStatus handle).run cb).2 }
        waiting := if ((EventCallback.awaitStatus handle).run cb).1 = .suspended then
          r.waiting ++ [(handle, id)] else r.waiting }) := by
  simp only [awaitStatus, hcb]

variable [DecidableEq H]

def Action.apply : Action H → Option (EventCallback H) → Option (EventCallback H)
  | .register _, _ => some (.new H)
  | .deregister _, _ => none
  | .addEvent _, cb | .poll _, cb => cb
  | .dispatch ev _, cb => cb.map fun cb => (cb.deliver ev.status).2
  | .await _ handle _, cb => cb.map fun cb => ((EventCallback.awaitStatus handle).run cb).2
  | .destroy _ _, cb => cb.map EventCallback.reset

/-- A step does to the callback that it is about what its action says, and nothing to the others. -/
theorem Step.callback_eq {r r' : Runtime H} {a : Action H} (h : Step r a r') (id : EId) :
    r'.callback id = if a.id = id then a.apply (r.callback id) else r.callback id := by
  suffices hbus : r'.callback id = if a.id = id then a.apply (r.callback a.id) else r.callback id by
    rw [hbus]
    by_cases hid : a.id = id
    · rw [if_pos hid, if_pos hid, hid]
    · rw [if_neg hid, if_neg hid]
  cases h with
  | register => exact EventBus.callback_registerEventCallback _ _
  | deregister j _ => exact EventBus.callback_deregisterEventCallback _ _ _
  | addEvent ev =>
    by_cases hid : ev.id = id <;> simp [Action.apply, Action.id, hid, EventLoop.addEvent, callback]
  | poll ev _ =>
    by_cases hid : ev.id = id <;> simp [Action.apply, Action.id, hid, EventLoop.addEvent, callback]
  | dispatch ev events _ => exact EventBus.callback_deliver _ _ _ _
  | await j handle hcallback _ =>
    obtain ⟨cb, hcb⟩ := Option.isSome_iff_exists.mp hcallback
    simp [Action.apply, Action.id, run_awaitStatus hcb, hcb, callback]
  | destroy j handle _ _ => exact EventBus.callback_reset _ _ _

theorem Step.callback_self {r r' : Runtime H} {a : Action H} (h : Step r a r') :
    r'.callback a.id = a.apply (r.callback a.id) := (h.callback_eq _).trans (if_pos rfl)

theorem Step.callback_of_ne {r r' : Runtime H} {a : Action H} (h : Step r a r') {id : EId}
    (hne : a.id ≠ id) : r'.callback id = r.callback id := (h.callback_eq _).trans (if_neg hne)

theorem Step.dispatch_eq {r r' : Runtime H} {ev : Event} {resumed : Option H}
    (h : Step r (.dispatch ev resumed) r') :
    resumed = (r.callback ev.id).bind EventCallback.suspended ∧
      (r.callback ev.id = none → r'.loop.bus = r.loop.bus) := by
  cases h with
  | dispatch _ events hevents =>
    exact ⟨EventBus.deliver_fst _ _ _, fun hcb => by rw [EventBus.deliver_of_none hcb]⟩

theorem Step.await_eq {r r' : Runtime H} {id : EId} {handle : H} {outcome : Outcome Exn Int}
    (h : Step r (.await id handle outcome) r') :
    ∃ cb, r.callback id = some cb ∧
      outcome = ((EventCallback.awaitStatus handle).run cb).1 ∧ ∀ j, (handle, j) ∉ r.waiting := by
  cases h with
  | await _ _ hcallback hfree =>
    obtain ⟨cb, hcb⟩ := Option.isSome_iff_exists.mp hcallback
    exact ⟨cb, hcb, by rw [run_awaitStatus hcb],
      fun j hj => hfree (List.mem_map.mpr ⟨_, hj, rfl⟩)⟩

theorem Step.isSome_callback {r r' : Runtime H} {a : Action H} (h : Step r a r') (id : EId) :
    (r'.callback id).isSome ↔
      a = .register id ∨ (r.callback id).isSome ∧ a ≠ .deregister id := by
  rw [h.callback_eq]
  by_cases hid : a.id = id
  · rw [if_pos hid]
    cases a <;> simp_all [Action.id, Action.apply]
  · rw [if_neg hid]
    cases a <;> simp_all [Action.id]

/-- A handle on a callback is that of a coroutine that is suspended now, or it was there before and
nothing happened to the callback. -/
theorem Step.suspended {r r' : Runtime H} {a : Action H} (h : Step r a r') {id : EId}
    {cb' : EventCallback H} {handle : H} (hcb' : r'.callback id = some cb')
    (hs : cb'.suspended = some handle) :
    a = .await id handle .suspended ∨
      r.callback id = some cb' ∧ (a.id = id → ∃ ev, a = .addEvent ev ∨ a = .poll ev) := by
  rw [h.callback_eq] at hcb'
  by_cases hid : a.id = id
  · rw [if_pos hid] at hcb'
    cases a with
    | register j =>
      cases hcb'
      cases hs
    | deregister j => cases hcb'
    | addEvent ev => exact .inr ⟨hcb', fun _ => ⟨ev, .inl rfl⟩⟩
    | poll ev => exact .inr ⟨hcb', fun _ => ⟨ev, .inr rfl⟩⟩
    | dispatch ev resumed =>
      obtain ⟨cb, -, rfl⟩ := Option.map_eq_some_iff.mp hcb'
      rw [EventCallback.suspended_deliver] at hs
      cases hs
    | destroy j handle' =>
      obtain ⟨cb, -, rfl⟩ := Option.map_eq_some_iff.mp hcb'
      cases hs
    | await j handle' outcome =>
      obtain rfl : j = id := hid
      obtain ⟨cb, hcb, rfl⟩ := Option.map_eq_some_iff.mp hcb'
      obtain ⟨rfl, hsuspended⟩ := EventCallback.suspended_awaitStatus hs
      obtain ⟨cb₀, hcb₀, houtcome, -⟩ := h.await_eq
      obtain rfl := Option.some.inj (hcb.symm.trans hcb₀)
      exact .inl (by rw [houtcome, hsuspended])
  · rw [if_neg hid] at hcb'
    exact .inr ⟨hcb', fun h => absurd h hid⟩

theorem Step.events {r r' : Runtime H} {a : Action H} (h : Step r a r') :
    (∃ ev handle, a = .dispatch ev handle ∧ r.loop.events = ev :: r'.loop.events) ∨
      (∀ ev handle, a ≠ .dispatch ev handle) ∧
        r'.loop.events = r.loop.events ++ queued [a] := by
  cases h with
  | dispatch ev events hevents => exact .inl ⟨ev, _, rfl, hevents⟩
  | addEvent ev => exact .inr ⟨by simp, rfl⟩
  | poll ev _ => exact .inr ⟨by simp, rfl⟩
  | register => exact .inr ⟨by simp, (List.append_nil _).symm⟩
  | deregister j _ => exact .inr ⟨by simp, (List.append_nil _).symm⟩
  | destroy j handle _ _ => exact .inr ⟨by simp, (List.append_nil _).symm⟩
  | await j handle hcallback _ =>
    obtain ⟨cb, hcb⟩ := Option.isSome_iff_exists.mp hcallback
    rw [run_awaitStatus hcb]
    exact .inr ⟨by simp, (List.append_nil _).symm⟩

theorem Step.idCounter {r r' : Runtime H} {a : Action H} (h : Step r a r') :
    (∃ id, a = .register id ∧ id = (r.loop.bus.idCounter + 1) % 2 ^ 64 ∧
        r'.loop.bus.idCounter = id) ∨
      (∀ id, a ≠ .register id) ∧ r'.loop.bus.idCounter = r.loop.bus.idCounter := by
  cases h with
  | register => exact .inl ⟨_, rfl, rfl, rfl⟩
  | deregister j _ => exact .inr ⟨by simp, rfl⟩
  | addEvent ev => exact .inr ⟨by simp, rfl⟩
  | poll ev _ => exact .inr ⟨by simp, rfl⟩
  | dispatch ev events hevents =>
    exact .inr ⟨by simp, EventBus.idCounter_deliver _ _ _⟩
  | await j handle hcallback _ =>
    obtain ⟨cb, hcb⟩ := Option.isSome_iff_exists.mp hcallback
    rw [run_awaitStatus hcb]
    exact .inr ⟨by simp, rfl⟩
  | destroy j handle _ _ => exact .inr ⟨by simp, EventBus.idCounter_reset _ _⟩

def Action.Ends (a : Action H) (handle : H) : Prop :=
  (∃ ev, a = .dispatch ev (some handle)) ∨ ∃ id, a = .destroy id handle

/-- A coroutine waits from when it is suspended until it is resumed or destroyed. -/
theorem Step.mem_waiting {r r' : Runtime H} {a : Action H} (h : Step r a r') (handle : H)
    (id : EId) : (handle, id) ∈ r'.waiting ↔
      a = .await id handle .suspended ∨ (handle, id) ∈ r.waiting ∧ ¬ a.Ends handle := by
  cases h with
  | register => simp [Action.Ends]
  | deregister j _ => simp [Action.Ends]
  | addEvent ev => simp [Action.Ends]
  | poll ev _ => simp [Action.Ends]
  | dispatch ev events _ => simp [Action.Ends, @eq_comm _ (some handle)]
  | destroy j handle' _ _ => simp [Action.Ends, @eq_comm _ handle]
  | await j handle' hcallback hfree =>
    obtain ⟨cb, hcb⟩ := Option.isSome_iff_exists.mp hcallback
    rw [run_awaitStatus hcb]
    by_cases ho : ((EventCallback.awaitStatus handle').run cb).1 = .suspended
    · simp [ho, Action.Ends, or_comm, and_comm, eq_comm]
    · simp [ho, Action.Ends]

/-! ## Who waits -/

/-- A handle on a callback is that of a coroutine that awaits it, and no coroutine awaits two. -/
structure Consistent (r : Runtime H) : Prop where
  waits : ∀ id cb handle, r.callback id = some cb → cb.suspended = some handle →
    (handle, id) ∈ r.waiting
  once : ∀ handle id id', (handle, id) ∈ r.waiting → (handle, id') ∈ r.waiting → id = id'

omit [DecidableEq H] in
theorem consistent_new : Consistent (new H) where
  waits := fun id cb handle h => by cases h
  once := fun handle id id' h => by cases h

/-- What ends the await of a coroutine is about the callback that it awaits. -/
theorem Consistent.id_of_ends {r r' : Runtime H} {a : Action H} (h : Consistent r)
    (hstep : Step r a r') {handle : H} {id : EId} (hwaiting : (handle, id) ∈ r.waiting)
    (hends : a.Ends handle) : a.id = id ∧ ∀ ev, a ≠ .addEvent ev ∧ a ≠ .poll ev := by
  rcases hends with ⟨ev, rfl⟩ | ⟨j, rfl⟩
  · obtain ⟨hresumed, -⟩ := hstep.dispatch_eq
    obtain ⟨cb, hcb, hs⟩ := Option.bind_eq_some_iff.mp hresumed.symm
    exact ⟨h.once handle _ _ (h.waits _ cb handle hcb hs) hwaiting, by simp⟩
  · cases hstep with
    | destroy _ _ hj _ => exact ⟨h.once handle _ _ hj hwaiting, by simp⟩

theorem consistent_step {r r' : Runtime H} {a : Action H} (h : Consistent r)
    (hstep : Step r a r') : Consistent r' := by
  constructor
  · intro id cb handle hcb hs
    rw [hstep.mem_waiting]
    rcases hstep.suspended hcb hs with ha | ⟨hcb₀, hsame⟩
    · exact .inl ha
    · have hwaiting := h.waits id cb handle hcb₀ hs
      refine .inr ⟨hwaiting, fun hends => ?_⟩
      obtain ⟨hid, hne⟩ := h.id_of_ends hstep hwaiting hends
      obtain ⟨ev, hev | hev⟩ := hsame hid
      · exact (hne ev).1 hev
      · exact (hne ev).2 hev
  · intro handle id id' hid hid'
    rw [hstep.mem_waiting] at hid hid'
    have hfree : ∀ j, a = .await j handle .suspended → ∀ j', (handle, j') ∉ r.waiting := by
      rintro j rfl
      obtain ⟨-, -, -, hfree⟩ := hstep.await_eq
      exact hfree
    rcases hid with ha | ⟨hw, -⟩
    · rcases hid' with ha' | ⟨hw', -⟩
      · rw [ha] at ha'
        exact (Action.await.inj ha').1
      · exact absurd hw' (hfree id ha id')
    · rcases hid' with ha' | ⟨hw', -⟩
      · exact absurd hw (hfree id' ha' id)
      · exact h.once handle id id' hw hw'

theorem consistent_of_run {as : List (Action H)} {r : Runtime H} (hrun : Run Step (new H) as r) :
    Consistent r := hrun.invariant Consistent (fun _ _ _ => consistent_step) consistent_new

/-- Of the coroutines that wait on a callback, it keeps the only one. -/
structure Sole (id : EId) (r : Runtime H) (cb : EventCallback H) : Prop where
  callback : r.callback id = some cb
  waiting : ∀ handle, (handle, id) ∈ r.waiting ↔ cb.suspended = some handle

omit [DecidableEq H] in
theorem Sole.suspended_eq_none {id : EId} {r : Runtime H} {cb : EventCallback H}
    (h : Sole id r cb) (hnone : ∀ handle, (handle, id) ∉ r.waiting) : cb.suspended = none := by
  rw [Option.eq_none_iff_forall_ne_some]
  intro handle hs
  exact hnone handle ((h.waiting handle).mpr hs)

theorem sole_of_ne {id : EId} {r r' : Runtime H} {a : Action H} {cb : EventCallback H}
    (h : Sole id r cb) (hr : Consistent r) (hstep : Step r a r') (hne : a.id ≠ id) :
    Sole id r' cb := by
  refine ⟨(hstep.callback_of_ne hne).trans h.callback, fun handle => ?_⟩
  rw [hstep.mem_waiting, ← h.waiting]
  constructor
  · rintro (rfl | ⟨hwaiting, -⟩)
    · exact absurd rfl hne
    · exact hwaiting
  · intro hwaiting
    exact .inr ⟨hwaiting, fun hends => hne (hr.id_of_ends hstep hwaiting hends).1⟩

theorem sole_of_queued {id : EId} {r r' : Runtime H} {a : Action H} {cb : EventCallback H}
    (h : Sole id r cb) (hstep : Step r a r') (ha : ∃ ev, a = .addEvent ev ∨ a = .poll ev) :
    Sole id r' cb := by
  obtain ⟨ev, rfl | rfl⟩ := ha
  all_goals
    refine ⟨(hstep.callback_eq id).trans ((ite_self _).trans h.callback), fun handle => ?_⟩
    rw [hstep.mem_waiting, ← h.waiting]
    simp [Action.Ends]

theorem sole_of_dispatch {id : EId} {r r' : Runtime H} {ev : Event} {resumed : Option H}
    {cb : EventCallback H} (h : Sole id r cb) (hstep : Step r (.dispatch ev resumed) r')
    (hid : ev.id = id) : resumed = cb.suspended ∧ Sole id r' (cb.deliver ev.status).2 := by
  subst hid
  have hresumed : resumed = cb.suspended := by
    rw [hstep.dispatch_eq.1, h.callback]
    rfl
  have hself : r'.callback ev.id = _ := hstep.callback_self
  rw [Action.id, h.callback] at hself
  refine ⟨hresumed, hself, fun handle => ?_⟩
  rw [hstep.mem_waiting, h.waiting, cb.suspended_deliver, hresumed]
  constructor
  · rintro (ha | ⟨hs, hends⟩)
    · cases ha
    · exact absurd (.inl ⟨ev, by rw [hs]⟩) hends
  · intro hs
    cases hs

/-- An await of a callback that keeps no coroutine takes its status or is suspended. -/
theorem sole_of_await {id : EId} {r r' : Runtime H} {handle : H} {outcome : Outcome Exn Int}
    {cb : EventCallback H} (h : Sole id r cb) (hstep : Step r (.await id handle outcome) r')
    (hs : cb.suspended = none) :
    outcome = cb.status.elim .suspended .returned ∧
      Sole id r' ((EventCallback.awaitStatus handle).run cb).2 := by
  have hself : r'.callback id = _ := hstep.callback_self
  rw [Action.id, h.callback] at hself
  obtain ⟨cb₀, hcb₀, houtcome, -⟩ := hstep.await_eq
  obtain rfl := Option.some.inj (h.callback.symm.trans hcb₀)
  obtain ⟨_ | status, suspended⟩ := cb
  · obtain rfl : suspended = none := hs
    obtain rfl : outcome = .suspended := houtcome
    refine ⟨rfl, hself, fun handle' => ?_⟩
    rw [hstep.mem_waiting, h.waiting]
    simp [EventCallback.awaitStatus, EventCallback.setHandle]
  · obtain rfl : suspended = none := hs
    obtain rfl : outcome = .returned status := houtcome
    refine ⟨rfl, hself, fun handle' => ?_⟩
    rw [hstep.mem_waiting, h.waiting]
    simp [EventCallback.awaitStatus, EventCallback.reset]

/-! ## Routing -/

/-- What a run has come to: the ids are numbered in the order of the registrations, the queue holds
what was queued and not delivered, and the bus knows the callbacks that are alive. -/
structure Traced (as : List (Action H)) (r : Runtime H) : Prop where
  registered : registered as = List.range' 1 r.loop.bus.idCounter
  events : delivered as ++ r.loop.events = queued as
  callback : ∀ id, (r.callback id).isSome ↔ .register id ∈ as ∧ .deregister id ∉ as
  deregistered : ∀ id, .deregister id ∈ as → .register id ∈ as
  suspended : ∀ id cb handle, r.callback id = some cb → cb.suspended = some handle →
    .await id handle .suspended ∈ as
  waiting : ∀ handle id, (handle, id) ∈ r.waiting → .register id ∈ as

theorem traced_step {as : List (Action H)} {r r' : Runtime H} {a : Action H} (h : Traced as r)
    (hstep : Step r a r') (hlt : (registered (as ++ [a])).length < 2 ^ 64) :
    Traced (as ++ [a]) r' := by
  have hlen : (registered as).length = r.loop.bus.idCounter := by
    rw [h.registered, List.length_range']
  have hfresh : ∀ id, a = .register id → id = r.loop.bus.idCounter + 1 ∧
      .register id ∉ as ∧ .deregister id ∉ as := by
    rintro id rfl
    rcases hstep.idCounter with ⟨id', ha, hid, -⟩ | ⟨hne, -⟩
    · obtain rfl := Action.register.inj ha
      rw [registered_append, List.length_append, hlen] at hlt
      have hid' : id = r.loop.bus.idCounter + 1 := hid.trans (Nat.mod_eq_of_lt hlt)
      have hnot : .register id ∉ as := by
        rw [← mem_registered, h.registered, List.mem_range'_1, hid']
        omega
      exact ⟨hid', hnot, fun hd => hnot (h.deregistered _ hd)⟩
    · exact absurd rfl (hne id)
  constructor
  · rw [registered_append, h.registered]
    rcases hstep.idCounter with ⟨id, rfl, -, hcounter⟩ | ⟨hne, hcounter⟩
    · rw [hcounter, (hfresh id rfl).1, List.range'_concat, Nat.one_mul, Nat.add_comm]
      rfl
    · rw [hcounter]
      cases a with
      | register id => exact absurd rfl (hne id)
      | _ => exact List.append_nil _
  · rw [delivered_append, queued_append, ← h.events]
    rcases hstep.events with ⟨ev, handle, rfl, hevents⟩ | ⟨hne, hevents⟩
    · rw [hevents, List.append_assoc]
      exact (List.append_nil _).symm
    · rw [hevents]
      cases a with
      | dispatch ev handle => exact absurd rfl (hne ev handle)
      | _ => simp only [delivered, List.filterMap_cons, List.filterMap_nil, List.append_nil,
          List.append_assoc]
  · intro id
    rw [hstep.isSome_callback, h.callback, List.mem_append, List.mem_append, List.mem_singleton,
      List.mem_singleton]
    constructor
    · rintro (rfl | ⟨⟨hreg, hdereg⟩, hne⟩)
      · exact ⟨.inr rfl, by simpa using (hfresh id rfl).2.2⟩
      · exact ⟨.inl hreg, by rintro (hd | hd) <;> [exact hdereg hd; exact hne hd.symm]⟩
    · rintro ⟨hreg | rfl, hdereg⟩
      · exact .inr ⟨⟨hreg, fun hd => hdereg (.inl hd)⟩, fun ha => hdereg (.inr ha.symm)⟩
      · exact .inl rfl
  · intro id hd
    rw [List.mem_append, List.mem_singleton] at hd ⊢
    rcases hd with hd | rfl
    · exact .inl (h.deregistered id hd)
    · cases hstep with
      | deregister _ hcallback => exact .inl ((h.callback id).mp hcallback).1
  · intro id cb handle hcb hs
    rw [List.mem_append, List.mem_singleton]
    rcases hstep.suspended hcb hs with rfl | ⟨hcb₀, -⟩
    · exact .inr rfl
    · exact .inl (h.suspended id cb handle hcb₀ hs)
  · intro handle id hwaiting
    rw [List.mem_append]
    rcases (hstep.mem_waiting handle id).mp hwaiting with rfl | ⟨hw, -⟩
    · obtain ⟨cb, hcb, -, -⟩ := hstep.await_eq
      exact .inl ((h.callback id).mp (by rw [hcb]; rfl)).1
    · exact .inl (h.waiting handle id hw)

theorem traced_of_run {as : List (Action H)} {r : Runtime H} (hrun : Run Step (new H) as r)
    (hlt : (registered as).length < 2 ^ 64) : Traced as r := by
  refine hrun.trace_invariant (fun as r => (registered as).length < 2 ^ 64 → Traced as r)
    (fun as r a r' h hstep hlt' => ?_) (fun _ => ?_) hlt
  · refine traced_step (h ?_) hstep hlt'
    rw [registered_append, List.length_append] at hlt'
    omega
  · exact ⟨rfl, rfl, fun id => by simp [new, EventLoop.empty, EventBus.callback, AssocMap.find],
      fun id h => absurd h (by simp), fun id cb handle h => (by cases h),
      fun handle id h => (by cases h)⟩

/-- The callback of an object that has been constructed, before anybody uses it. -/
def Unused (id : EId) (r : Runtime H) : Prop :=
  r.callback id = some (.new H) ∧ ∀ handle, (handle, id) ∉ r.waiting

omit [DecidableEq H] in
theorem sole_of_unused {id : EId} {r : Runtime H} (h : Unused id r) : Sole id r (.new H) :=
  ⟨h.1, fun handle => iff_of_false (h.2 handle) (by simp [EventCallback.new])⟩

theorem nodup_registered {as : List (Action H)} {r : Runtime H} (hrun : Run Step (new H) as r)
    (hlt : (registered as).length < 2 ^ 64) : (registered as).Nodup := by
  rw [(traced_of_run hrun hlt).registered]
  exact List.nodup_range'

theorem unused_of_register {as : List (Action H)} {r r' : Runtime H} {id : EId}
    (hrun : Run Step (new H) as r) (hstep : Step r (.register id) r')
    (hlt : (registered (as ++ [.register id])).length < 2 ^ 64) : Unused id r' := by
  have hnodup := nodup_registered (hrun.append (.cons hstep (.nil _))) hlt
  rw [registered_append, List.length_append] at hlt
  rw [registered_append, List.nodup_append] at hnodup
  refine ⟨hstep.callback_self, fun handle hwaiting => ?_⟩
  rcases (hstep.mem_waiting handle id).mp hwaiting with ha | ⟨hw, -⟩
  · cases ha
  · have hmem := (traced_of_run hrun (by omega)).waiting handle id hw
    exact hnodup.2.2 id (mem_registered.mpr hmem) id (List.mem_singleton_self id) rfl

/-- The effect of a delivery: it leaves every other callback alone, resumes only a coroutine that
awaits the callback with the event's id, and does nothing where there is none. -/
structure Routed (pre : List (Action H)) (r : Runtime H) (ev : Event) (resumed : Option H)
    (r' : Runtime H) : Prop where
  others : ∀ id, id ≠ ev.id → r'.callback id = r.callback id
  resumes : ∀ handle, resumed = some handle → .register ev.id ∈ pre ∧
    .await ev.id handle .suspended ∈ pre ∧ .deregister ev.id ∉ pre
  dropped : (.register ev.id ∉ pre ∨ .deregister ev.id ∈ pre) →
    resumed = none ∧ r'.loop.bus = r.loop.bus

theorem routed_of_step {pre : List (Action H)} {r r' : Runtime H} {ev : Event}
    {resumed : Option H} (h : Traced pre r) (hstep : Step r (.dispatch ev resumed) r') :
    Routed pre r ev resumed r' := by
  obtain ⟨hresumed, hbus⟩ := hstep.dispatch_eq
  refine ⟨fun id hid => hstep.callback_of_ne (Ne.symm hid), ?_, ?_⟩
  · rintro handle rfl
    obtain ⟨cb, hcb, hs⟩ := Option.bind_eq_some_iff.mp hresumed.symm
    obtain ⟨hreg, hdereg⟩ := (h.callback ev.id).mp (by rw [hcb]; rfl)
    exact ⟨hreg, h.suspended ev.id cb handle hcb hs, hdereg⟩
  · intro hdropped
    have hnone : r.callback ev.id = none := by
      rw [← Option.not_isSome_iff_eq_none, h.callback]
      tauto
    rw [hnone] at hresumed
    exact ⟨hresumed, hbus hnone⟩

/-- Ids are distinct, events are delivered in the order in which they were queued, and each reaches
the callback with its id or nothing. -/
theorem routing {as : List (Action H)} {r : Runtime H} (hrun : Run Step (new H) as r)
    (hlt : (registered as).length < 2 ^ 64) :
    (registered as).Nodup ∧ delivered as ++ r.loop.events = queued as ∧
      ∀ pre ev resumed post, as = pre ++ .dispatch ev resumed :: post →
        ∃ r₁ r₂, Run Step (new H) pre r₁ ∧ Step r₁ (.dispatch ev resumed) r₂ ∧
          Run Step r₂ post r ∧ Routed pre r₁ ev resumed r₂ := by
  have h := traced_of_run hrun hlt
  refine ⟨nodup_registered hrun hlt, h.events, ?_⟩
  rintro pre ev resumed post rfl
  obtain ⟨r₁, r₂, hpre, hstep, hpost⟩ := hrun.at_label
  refine ⟨r₁, r₂, hpre, hstep, hpost, routed_of_step (traced_of_run hpre ?_) hstep⟩
  rw [registered_append, List.length_append] at hlt
  omega

/-- A coroutine is resumed, its callback is destroyed, and an event comes too late. -/
theorem routing_late : ∃ r : Runtime Nat,
    Run Step (new Nat) [.register 1, .await 1 7 .suspended, .addEvent ⟨1, 0⟩,
      .dispatch ⟨1, 0⟩ (some 7), .addEvent ⟨1, 5⟩, .deregister 1, .dispatch ⟨1, 5⟩ none] r ∧
    delivered (H := Nat) [.register 1, .await 1 7 .suspended, .addEvent ⟨1, 0⟩,
      .dispatch ⟨1, 0⟩ (some 7), .addEvent ⟨1, 5⟩, .deregister 1, .dispatch ⟨1, 5⟩ none] ++
      r.loop.events = [⟨1, 0⟩, ⟨1, 5⟩] := by
  obtain ⟨r, hrun⟩ : ∃ r : Runtime Nat, Run Step (new Nat) [.register 1, .await 1 7 .suspended,
      .addEvent ⟨1, 0⟩, .dispatch ⟨1, 0⟩ (some 7), .addEvent ⟨1, 5⟩, .deregister 1,
      .dispatch ⟨1, 5⟩ none] r :=
    ⟨_, .cons (.register _) (.cons (.await _ 1 7 rfl (by decide)) (.cons (.addEvent _ _)
      (.cons (.dispatch _ _ _ rfl) (.cons (.addEvent _ _) (.cons (.deregister _ 1 rfl)
        (.cons (.dispatch _ _ _ rfl) (.nil _)))))))⟩
  exact ⟨r, hrun, (routing hrun (by decide)).2.1⟩

end Runtime

end CppEvent
