import CppEvent.Base.Util
import CppEvent.Library.AssocMap
import CppEvent.Library.Coroutine

/-!
# `event_bus`, `event_callback`, `event_loop`

What a coroutine is resumed by. A callback is registered on the bus under an id of its own and keeps
the handle of the coroutine that awaits it; the loop takes events off its queue first in, first out,
and notifies the callback under the event's id. Handles are left abstract (`H`).

A `status_awaiter` is only ever awaited where it is made, so it is modelled by what the `co_await` of
it does to the callback: `awaitStatus` up to the suspension, `awaitResume` behind it, and
`EventCallback.reset` where the awaiter is destroyed without having been resumed.
-/

namespace CppEvent

open AssocMap Coroutine

/-- `e_id`, a `uint64_t`. -/
abbrev EId := Nat

structure Event where
  id : EId
  status : Int
  deriving DecidableEq, Repr

/-- `event_callback`, less its id and its reference to the bus. -/
structure EventCallback (H : Type) where
  status : Option Int
  suspended : Option H
  deriving DecidableEq, Repr

structure EventBus (H : Type) where
  idCounter : EId
  callbacks : List (EId × EventCallback H)
  deriving DecidableEq, Repr

namespace EventCallback

variable {H : Type}

/-- A callback that is being constructed. -/
def new (H : Type) : EventCallback H where
  status := none
  suspended := none

def setHandle (cb : EventCallback H) (handle : H) : Except Exn (EventCallback H) :=
  match cb.suspended with
  | some _ => .error (.runtimeError "event_callback set_handle: handle already set")
  | none => .ok { cb with suspended := some handle }

/-- `notify`: the handle that it resumes. -/
def notify (cb : EventCallback H) (status : Int) : Option H × EventCallback H :=
  (cb.suspended, { cb with status := some status, suspended := none })

def reset (cb : EventCallback H) : EventCallback H := { cb with status := none, suspended := none }

/-- `co_await await_status()` up to where the coroutine is suspended, if it is. What `await_suspend`
throws is thrown in the coroutine, whose `status_awaiter` is destroyed with it. -/
def awaitStatus (handle : H) : Coro (EventCallback H) Exn Int := ⟨fun cb =>
  match cb.status with
  | some status => (.returned status, cb.reset)
  | none =>
      match cb.setHandle handle with
      | .ok cb' => (.suspended, cb')
      | .error e => (.threw e, cb.reset)⟩

/-- `notify`, with the `await_resume` of the coroutine that it resumes. -/
def deliver (cb : EventCallback H) (status : Int) : Option H × EventCallback H :=
  match cb.notify status with
  | (some handle, cb') => (some handle, cb'.reset)
  | (none, cb') => (none, cb')

theorem awaitStatus_of_status {cb : EventCallback H} {status : Int} (h : cb.status = some status)
    (handle : H) : (awaitStatus handle).run cb = (.returned status, .new H) := by
  simp only [awaitStatus, h]
  rfl

theorem awaitStatus_new (handle : H) :
    (awaitStatus handle).run (.new H) = (.suspended, { status := none, suspended := some handle }) :=
  rfl

/-- A second coroutine is turned away, and the first one's handle is gone. -/
theorem awaitStatus_of_suspended {cb : EventCallback H} {first : H} (h : cb.status = none)
    (hs : cb.suspended = some first) (handle : H) :
    (awaitStatus handle).run cb =
      (.threw (.runtimeError "event_callback set_handle: handle already set"), .new H) := by
  simp only [awaitStatus, setHandle, h, hs]
  rfl

theorem suspended_awaitStatus {cb : EventCallback H} {handle handle' : H}
    (h : ((awaitStatus handle).run cb).2.suspended = some handle') :
    handle' = handle ∧ ((awaitStatus handle).run cb).1 = .suspended := by
  obtain ⟨_ | status, _ | first⟩ := cb
  · exact ⟨(Option.some.inj h).symm, rfl⟩
  all_goals cases h

theorem suspended_deliver (cb : EventCallback H) (status : Int) :
    (cb.deliver status).2.suspended = none := by
  obtain ⟨_, _ | handle⟩ := cb <;> rfl

end EventCallback

namespace EventBus

variable {H : Type}

def callback (b : EventBus H) (id : EId) : Option (EventCallback H) :=
  find (· == ·) b.callbacks id

/-- `m_callbacks[id] = callback`, and every change to the callback under an id. -/
def store (b : EventBus H) (id : EId) (callback : EventCallback H) : EventBus H :=
  { b with callbacks := assign (· == ·) b.callbacks id callback }

/-- `register_event_callback`, for a callback that is being constructed. -/
def registerEventCallback (b : EventBus H) : EId × EventBus H :=
  let id := (b.idCounter + 1) % 2 ^ 64
  (id, { b with idCounter := id }.store id { status := none, suspended := none })

def deregisterEventCallback (b : EventBus H) (id : EId) : EventBus H :=
  { b with callbacks := b.callbacks.filter fun p => p.1 ≠ id }

def setHandle (b : EventBus H) (id : EId) (handle : H) : Except Exn (EventBus H) :=
  match find (· == ·) b.callbacks id with
  | some { status, suspended := none } =>
      .ok (b.store id { status := status, suspended := some handle })
  | _ => .error (.runtimeError "event_callback set_handle: handle already set")

theorem setHandle_register (b : EventBus H) (handle : H) :
    b.registerEventCallback.2.setHandle b.registerEventCallback.1 handle =
      .ok (b.registerEventCallback.2.store b.registerEventCallback.1
        { status := none, suspended := some handle }) := by
  have hfind : find (· == ·) b.registerEventCallback.2.callbacks b.registerEventCallback.1 =
      some { status := none, suspended := none } := find_assign_self isEquality_beq _ _ _
  rw [setHandle, hfind]

/-- `notify`: the handle that it resumes, if the id is that of a callback that keeps one. -/
def notify (b : EventBus H) (id : EId) (status : Int) : Option H × EventBus H :=
  match find (· == ·) b.callbacks id with
  | some callback =>
      (callback.suspended, b.store id { status := some status, suspended := none })
  | none => (none, b)

def reset (b : EventBus H) (id : EId) : EventBus H :=
  match b.callback id with
  | some callback => b.store id callback.reset
  | none => b

/-- `notify`, with the `await_resume` of the coroutine that it resumes. -/
def deliver (b : EventBus H) (id : EId) (status : Int) : Option H × EventBus H :=
  match b.notify id status with
  | (some handle, b') => (some handle, b'.reset id)
  | (none, b') => (none, b')

/-! ### The callback with an id -/

@[simp] theorem callback_store (b : EventBus H) (id j : EId) (cb : EventCallback H) :
    (b.store id cb).callback j = if id = j then some cb else b.callback j := by
  simp only [callback, store, find_assign isEquality_beq, beq_iff_eq]

@[simp] theorem idCounter_store (b : EventBus H) (id : EId) (cb : EventCallback H) :
    (b.store id cb).idCounter = b.idCounter := rfl

@[simp] theorem callback_registerEventCallback (b : EventBus H) (j : EId) :
    b.registerEventCallback.2.callback j =
      if b.registerEventCallback.1 = j then some (.new H) else b.callback j :=
  callback_store _ _ _ _

@[simp] theorem callback_deregisterEventCallback (b : EventBus H) (id j : EId) :
    (b.deregisterEventCallback id).callback j = if id = j then none else b.callback j :=
  find_filter_ne _ _ _

theorem notify_of_callback {b : EventBus H} {id : EId} {cb : EventCallback H}
    (h : b.callback id = some cb) (status : Int) :
    b.notify id status = ((cb.notify status).1, b.store id (cb.notify status).2) := by
  simp only [callback] at h
  simp only [notify, h]
  rfl

theorem notify_of_none {b : EventBus H} {id : EId} (h : b.callback id = none) (status : Int) :
    b.notify id status = (none, b) := by
  simp only [callback] at h
  simp only [notify, h]

@[simp] theorem callback_reset (b : EventBus H) (id j : EId) :
    (b.reset id).callback j =
      if id = j then (b.callback id).map EventCallback.reset else b.callback j := by
  simp only [reset]
  cases hcb : b.callback id with
  | none => by_cases hj : id = j <;> simp_all
  | some cb => exact callback_store _ _ _ _

@[simp] theorem idCounter_reset (b : EventBus H) (id : EId) :
    (b.reset id).idCounter = b.idCounter := by
  simp only [reset]
  split <;> rfl

theorem deliver_of_none {b : EventBus H} {id : EId} (h : b.callback id = none) (status : Int) :
    b.deliver id status = (none, b) := by
  rw [deliver, notify_of_none h]

theorem deliver_fst (b : EventBus H) (id : EId) (status : Int) :
    (b.deliver id status).1 = (b.callback id).bind EventCallback.suspended := by
  cases hcb : b.callback id with
  | none => rw [deliver_of_none hcb, Option.bind_none]
  | some cb =>
    rw [deliver, notify_of_callback hcb, Option.bind_some]
    rcases hs : cb.suspended with _ | handle <;> simp [EventCallback.notify, hs]

theorem callback_deliver (b : EventBus H) (id j : EId) (status : Int) :
    (b.deliver id status).2.callback j =
      if id = j then (b.callback id).map fun cb => (cb.deliver status).2 else b.callback j := by
  cases hcb : b.callback id with
  | none =>
    rw [deliver_of_none hcb]
    by_cases hj : id = j <;> simp_all
  | some cb =>
    rw [deliver, notify_of_callback hcb]
    rcases hs : cb.suspended with _ | handle
    · simp [EventCallback.notify, EventCallback.deliver, hs]
    · by_cases hj : id = j <;> simp [EventCallback.notify, EventCallback.deliver, hs, hj]

@[simp] theorem idCounter_deliver (b : EventBus H) (id : EId) (status : Int) :
    (b.deliver id status).2.idCounter = b.idCounter := by
  cases hcb : b.callback id with
  | none => rw [deliver_of_none hcb]
  | some cb =>
    rw [deliver, notify_of_callback hcb]
    rcases hs : cb.suspended with _ | handle <;> simp [EventCallback.notify, hs]

end EventBus

/-- `event_loop`, less the rings of its io service. -/
structure EventLoop (H : Type) where
  events : List Event
  bus : EventBus H
  deriving DecidableEq, Repr

namespace EventLoop

variable {H : Type}

def empty (H : Type) : EventLoop H where
  events := []
  bus := { idCounter := 0, callbacks := [] }

def addEvent (l : EventLoop H) (ev : Event) : EventLoop H :=
  { l with events := l.events ++ [ev] }

/-- A round of `run` that finds an event in the queue: the event, and the handle that it resumes. -/
def runRound (l : EventLoop H) : Option (Event × Option H × EventLoop H) :=
  match l.events with
  | [] => none
  | ev :: events =>
      let (handle, bus) := l.bus.notify ev.id ev.status
      some (ev, handle, { events := events, bus := bus })

end EventLoop

end CppEvent
