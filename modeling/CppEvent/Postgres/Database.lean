import CppEvent.Base.Event
import CppEvent.Library.Coroutine
import CppEvent.Library.Transition

/-!
# `pg_database`

The connection pool of `pg_database.cpp`, as clients and the event loop use it. A call of
`get_connection` is suspended in one of three places: in `connect`, in `init`, or on a callback that
`release` has the loop notify. The steps of the pool are what happens between two suspensions.

`release` makes a connection idle at once and has its waiter woken later, so that a call which comes
in between may take the connection first, and the limit is tested before `connect` and counted
after it. `idle_of_resumes` and `connCount_le` are what holds in every run in which neither happens.
-/

namespace CppEvent

open Coroutine Transition

abbrev CallId := Nat

/-- A connection, by the socket it owns. -/
abbrev ConnId := Nat

/-- `pg_database`: its counter and queues, and the limit of its configuration. -/
structure PgDatabase where
  maxConnections : Int
  connCount : Int
  idle : List ConnId
  waiting : List EId
  deriving DecidableEq, Repr

/-- A database, its event loop, the calls suspended in `connect` and in `init`, and the connections
that clients hold. The calls that wait for a connection are the handles on the bus. -/
structure Pool where
  db : PgDatabase
  loop : EventLoop CallId
  connecting : List CallId
  initializing : List (CallId × ConnId)
  held : List ConnId
  nextConn : ConnId
  deriving DecidableEq, Repr

namespace Pool

def new (maxConnections : Int) : Pool where
  db := { maxConnections := maxConnections, connCount := 0, idle := [], waiting := [] }
  loop := EventLoop.empty CallId
  connecting := []
  initializing := []
  held := []
  nextConn := 0

/-! ## `get_connection` -/

/-- `std::move(m_idle.front()); m_idle.pop();` and the return of the connection. -/
def takeIdle : Coro Pool Exn Unit := ⟨fun p =>
  match p.db.idle with
  | [] => (.undefined, p)
  | conn :: idle => (.returned (), { p with db.idle := idle, held := p.held ++ [conn] })⟩

def getEventCallback : Coro Pool Exn EId := ⟨fun p =>
  (.returned p.loop.bus.registerEventCallback.1,
    { p with loop.bus := p.loop.bus.registerEventCallback.2 })⟩

/-- `co_await callback.await_status()` of a callback without a status. -/
def awaitStatus (id : EId) (call : CallId) : Coro Pool Exn Unit := do
  let p ← Coro.get
  let bus ← Coro.ofExcept (p.loop.bus.setHandle id call)
  Coro.modify fun p => { p with loop.bus := bus }

/-- The second `if` of `get_connection` up to its `co_await`. -/
def getWaiting (call : CallId) : Coro Pool Exn Unit := do
  let id ← getEventCallback
  Coro.modify fun p => { p with db.waiting := p.db.waiting ++ [id] }
  awaitStatus id call

/-- `get_connection` up to where it is first suspended or returns. -/
def getConnection (call : CallId) : Coro Pool Exn Unit := do
  let p ← Coro.get
  if p.db.idle = [] ∧ p.db.connCount < p.db.maxConnections then
    Coro.modify fun p => { p with connecting := p.connecting ++ [call] }
  else if p.db.idle = [] then getWaiting call
  else takeIdle

/-- `connect` returns in a call: the connection is constructed, and `init` begins. -/
def connected (call : CallId) : Coro Pool Exn Unit := do
  let p ← Coro.get
  if call ∈ p.connecting then
    Coro.modify fun p => { p with
      db.connCount := p.db.connCount + 1
      connecting := p.connecting.erase call
      initializing := p.initializing ++ [(call, p.nextConn)]
      nextConn := p.nextConn + 1 }
  else Coro.suspend

def connectFailed (call : CallId) : Coro Pool Exn Unit := do
  let p ← Coro.get
  if call ∈ p.connecting then
    Coro.modify fun p => { p with connecting := p.connecting.erase call }
  else Coro.suspend

/-- `init` returns in a call, and the call returns its connection. -/
def initialized (call : CallId) (conn : ConnId) : Coro Pool Exn Unit := do
  let p ← Coro.get
  if (call, conn) ∈ p.initializing then
    Coro.modify fun p => { p with
      initializing := p.initializing.erase (call, conn)
      held := p.held ++ [conn] }
  else Coro.suspend

/-- `init` throws, and the connection is destroyed. -/
def initFailed (call : CallId) (conn : ConnId) : Coro Pool Exn Unit := do
  let p ← Coro.get
  if (call, conn) ∈ p.initializing then
    Coro.modify fun p => { p with
      db.connCount := p.db.connCount - 1
      initializing := p.initializing.erase (call, conn) }
  else Coro.suspend

/-! ## `release` and the event loop -/

def release (conn : ConnId) : Coro Pool Exn Unit := do
  let p ← Coro.get
  if conn ∈ p.held then do
    Coro.modify fun p => { p with
      db.idle := p.db.idle ++ [conn]
      held := p.held.erase conn }
    match p.db.waiting with
    | [] => pure ()
    | id :: waiting =>
        Coro.modify fun p => { p with
          db.waiting := waiting
          loop := p.loop.addEvent { id := id, status := 0 } }
  else Coro.suspend

/-- A client destroys a connection instead of releasing it. -/
def destroy (conn : ConnId) : Coro Pool Exn Unit := do
  let p ← Coro.get
  if conn ∈ p.held then
    Coro.modify fun p => { p with
      db.connCount := p.db.connCount - 1
      held := p.held.erase conn }
  else Coro.suspend

/-- The loop takes an event off its queue. A call that it resumes leaves the scope of its callback
and goes on behind the `co_await`. -/
def dispatch : Coro Pool Exn Unit := do
  let p ← Coro.get
  match p.loop.runRound with
  | none => Coro.suspend
  | some (ev, handle, loop) => do
      Coro.modify fun p => { p with loop := loop }
      match handle with
      | none => pure ()
      | some _ => do
          Coro.modify fun p => { p with loop.bus := p.loop.bus.deregisterEventCallback ev.id }
          takeIdle

inductive Action where
  | getConnection (call : CallId)
  | connected (call : CallId)
  | connectFailed (call : CallId)
  | initialized (call : CallId) (conn : ConnId)
  | initFailed (call : CallId) (conn : ConnId)
  | release (conn : ConnId)
  | destroy (conn : ConnId)
  | dispatch
  deriving DecidableEq, Repr

def perform : Action → Coro Pool Exn Unit
  | .getConnection call => getConnection call
  | .connected call => connected call
  | .connectFailed call => connectFailed call
  | .initialized call conn => initialized call conn
  | .initFailed call conn => initFailed call conn
  | .release conn => release conn
  | .destroy conn => destroy conn
  | .dispatch => dispatch

/-- A step: an action that runs to its end. -/
def Step (p : Pool) (a : Action) (p' : Pool) : Prop := (perform a).run p = (.returned (), p')

/-! ### What a step does -/

/-- The call that the loop resumes when it takes the next event off its queue. -/
def resumes (p : Pool) : Option CallId := p.loop.runRound.bind fun r => r.2.1

/-- The effect of every kind of step, but for the contents of the bus. -/
inductive Effect (p : Pool) : Action → Pool → Prop
  | connect (call : CallId) (hidle : p.db.idle = [])
      (hlt : p.db.connCount < p.db.maxConnections) :
      Effect p (.getConnection call) { p with connecting := p.connecting ++ [call] }
  | wait (call : CallId) (id : EId) (bus : EventBus CallId) (hidle : p.db.idle = [])
      (hge : p.db.maxConnections ≤ p.db.connCount) :
      Effect p (.getConnection call)
        { p with db.waiting := p.db.waiting ++ [id], loop.bus := bus }
  | take (call : CallId) (conn : ConnId) (idle : List ConnId) (hidle : p.db.idle = conn :: idle) :
      Effect p (.getConnection call) { p with db.idle := idle, held := p.held ++ [conn] }
  | connected (call : CallId) (hcall : call ∈ p.connecting) :
      Effect p (.connected call) { p with
        db.connCount := p.db.connCount + 1
        connecting := p.connecting.erase call
        initializing := p.initializing ++ [(call, p.nextConn)]
        nextConn := p.nextConn + 1 }
  | connectFailed (call : CallId) (hcall : call ∈ p.connecting) :
      Effect p (.connectFailed call) { p with connecting := p.connecting.erase call }
  | initialized (call : CallId) (conn : ConnId) (hcall : (call, conn) ∈ p.initializing) :
      Effect p (.initialized call conn) { p with
        initializing := p.initializing.erase (call, conn)
        held := p.held ++ [conn] }
  | initFailed (call : CallId) (conn : ConnId) (hcall : (call, conn) ∈ p.initializing) :
      Effect p (.initFailed call conn) { p with
        db.connCount := p.db.connCount - 1
        initializing := p.initializing.erase (call, conn) }
  | release (conn : ConnId) (hconn : conn ∈ p.held) (hwaiting : p.db.waiting = []) :
      Effect p (.release conn)
        { p with db.idle := p.db.idle ++ [conn], held := p.held.erase conn }
  | wake (conn : ConnId) (id : EId) (waiting : List EId) (hconn : conn ∈ p.held)
      (hwaiting : p.db.waiting = id :: waiting) :
      Effect p (.release conn) { p with
        db.idle := p.db.idle ++ [conn]
        db.waiting := waiting
        held := p.held.erase conn
        loop := p.loop.addEvent { id := id, status := 0 } }
  | destroy (conn : ConnId) (hconn : conn ∈ p.held) :
      Effect p (.destroy conn)
        { p with db.connCount := p.db.connCount - 1, held := p.held.erase conn }
  | ignore (ev : Event) (events : List Event) (bus : EventBus CallId)
      (hevents : p.loop.events = ev :: events) :
      Effect p .dispatch { p with loop := { events := events, bus := bus } }
  | resume (ev : Event) (events : List Event) (bus : EventBus CallId) (conn : ConnId)
      (idle : List ConnId) (hevents : p.loop.events = ev :: events)
      (hidle : p.db.idle = conn :: idle) :
      Effect p .dispatch { p with
        db.idle := idle
        loop := { events := events, bus := bus }
        held := p.held ++ [conn] }

theorem takeIdle_returned {p p' : Pool} (h : takeIdle.run p = (.returned (), p')) :
    ∃ conn idle, p.db.idle = conn :: idle ∧
      p' = { p with db.idle := idle, held := p.held ++ [conn] } := by
  simp only [takeIdle] at h
  cases hidle : p.db.idle with
  | nil => simp [hidle] at h
  | cons conn idle =>
    rw [hidle] at h
    exact ⟨conn, idle, rfl, (Prod.mk.inj h).2.symm⟩

theorem run_wait (call : CallId) (p : Pool) :
    (getWaiting call).run p = (.returned (), { p with
      db.waiting := p.db.waiting ++ [p.loop.bus.registerEventCallback.1]
      loop.bus := p.loop.bus.registerEventCallback.2.store p.loop.bus.registerEventCallback.1
        { status := none, suspended := some call } }) := by
  simp only [getWaiting, getEventCallback, awaitStatus, Coro.run_bind, Coro.run_modify,
    Coro.run_get, EventBus.setHandle_register, Coro.ofExcept_ok, Coro.run_pure]

theorem step_getConnection {call : CallId} {p p' : Pool} (h : Step p (.getConnection call) p') :
    Effect p (.getConnection call) p' := by
  simp only [Step, perform, getConnection, Coro.run_get_bind, Coro.run_ite] at h
  by_cases hidle : p.db.idle = []
  · by_cases hlt : p.db.connCount < p.db.maxConnections
    · rw [if_pos ⟨hidle, hlt⟩, Coro.run_modify] at h
      obtain rfl := (Prod.mk.inj h).2
      exact .connect call hidle hlt
    · rw [if_neg fun hc => hlt hc.2, if_pos hidle, run_wait] at h
      obtain rfl := (Prod.mk.inj h).2
      exact .wait call _ _ hidle (by omega)
  · rw [if_neg fun hc => hidle hc.1, if_neg hidle] at h
    obtain ⟨conn, idle, hcons, rfl⟩ := takeIdle_returned h
    exact .take call conn idle hcons

theorem step_release {conn : ConnId} {p p' : Pool} (h : Step p (.release conn) p') :
    Effect p (.release conn) p' := by
  simp only [Step, perform, release, Coro.run_get_bind, Coro.run_ite] at h
  by_cases hconn : conn ∈ p.held
  · rw [if_pos hconn, Coro.run_modify_bind] at h
    split at h
    · rename_i hwaiting
      obtain rfl := (Prod.mk.inj h).2
      exact .release conn hconn hwaiting
    · rename_i id waiting hwaiting
      obtain rfl := (Prod.mk.inj h).2
      exact .wake conn id waiting hconn hwaiting
  · simp [hconn] at h

/-- A round of the loop resumes nobody, or the call it resumes takes the first idle connection. -/
theorem dispatch_cases {p p' : Pool} (h : Step p .dispatch p') : ∃ ev events,
    p.loop.events = ev :: events ∧
    ((p.resumes = none ∧
        p' = { p with loop := { events := events, bus := (p.loop.bus.notify ev.id ev.status).2 } }) ∨
      ∃ call conn idle, p.resumes = some call ∧ p.db.idle = conn :: idle ∧
        p' = { p with
          db.idle := idle
          loop := { events := events, bus :=
            (p.loop.bus.notify ev.id ev.status).2.deregisterEventCallback ev.id }
          held := p.held ++ [conn] }) := by
  simp only [Step, perform, dispatch, Coro.run_get_bind] at h
  simp only [resumes]
  cases hevents : p.loop.events with
  | nil => simp [EventLoop.runRound, hevents] at h
  | cons ev events =>
    refine ⟨ev, events, rfl, ?_⟩
    simp only [EventLoop.runRound, hevents, Coro.run_modify_bind] at h
    simp only [EventLoop.runRound, hevents, Option.bind_some]
    cases hhandle : (p.loop.bus.notify ev.id ev.status).1 with
    | none =>
      rw [hhandle] at h
      exact .inl ⟨rfl, (Prod.mk.inj h).2.symm⟩
    | some call =>
      rw [hhandle] at h
      obtain ⟨conn, idle, hcons, rfl⟩ := takeIdle_returned h
      exact .inr ⟨call, conn, idle, rfl, hcons, rfl⟩

theorem step_dispatch {p p' : Pool} (h : Step p .dispatch p') : Effect p .dispatch p' := by
  obtain ⟨ev, events, hevents, ⟨-, rfl⟩ | ⟨call, conn, idle, -, hcons, rfl⟩⟩ := dispatch_cases h
  · exact .ignore ev events _ hevents
  · exact .resume ev events _ conn idle hevents hcons

theorem step_member {c : Prop} [Decidable c] {f : Pool → Pool} {p p' : Pool}
    (h : (if c then Coro.modify f else Coro.suspend : Coro Pool Exn Unit).run p =
      (.returned (), p')) : c ∧ p' = f p := by
  by_cases hc : c
  · rw [if_pos hc] at h
    exact ⟨hc, (Prod.mk.inj h).2.symm⟩
  · simp [hc] at h

theorem Step.effect {p p' : Pool} {a : Action} (h : Step p a p') : Effect p a p' := by
  cases a with
  | getConnection call => exact step_getConnection h
  | connected call =>
    obtain ⟨hcall, rfl⟩ := step_member h
    exact .connected call hcall
  | connectFailed call =>
    obtain ⟨hcall, rfl⟩ := step_member h
    exact .connectFailed call hcall
  | initialized call conn =>
    obtain ⟨hcall, rfl⟩ := step_member h
    exact .initialized call conn hcall
  | initFailed call conn =>
    obtain ⟨hcall, rfl⟩ := step_member h
    exact .initFailed call conn hcall
  | release conn => exact step_release h
  | destroy conn =>
    obtain ⟨hconn, rfl⟩ := step_member h
    exact .destroy conn hconn
  | dispatch => exact step_dispatch h

/-! ## Hand-over -/

def Action.isCall : Action → Bool
  | .getConnection _ => true
  | _ => false

/-- A call that finds idle connections finds more of them than there are calls to be woken. -/
def LeavesForWoken (p : Pool) (a : Action) : Prop :=
  a.isCall → p.db.idle ≠ [] → p.loop.events.length < p.db.idle.length

instance (p : Pool) (a : Action) : Decidable (LeavesForWoken p a) :=
  inferInstanceAs (Decidable (_ → _ → _))

/-- There is an idle connection for every call that is to be woken. -/
def Provided (p : Pool) : Prop := p.loop.events.length ≤ p.db.idle.length

theorem provided_step {p p' : Pool} {a : Action} (h : Provided p)
    (hstep : Within LeavesForWoken Step p a p') : Provided p' := by
  obtain ⟨hleaves, hstep⟩ := hstep
  simp only [Provided] at h ⊢
  cases hstep.effect with
  | take call conn idle hidle =>
    have hlt := hleaves rfl (by simp [hidle])
    simp only [hidle, List.length_cons] at hlt ⊢
    omega
  | release conn hconn hwaiting => simp only [List.length_append, List.length_singleton]; omega
  | wake conn id waiting hconn hwaiting =>
    simp only [EventLoop.addEvent, List.length_append, List.length_singleton]
    omega
  | ignore ev events bus hevents =>
    simp only [hevents, List.length_cons] at h ⊢
    omega
  | resume ev events bus conn idle hevents hidle =>
    simp only [hevents, hidle, List.length_cons] at h ⊢
    omega
  | _ => exact h

/-- A pool takes from an empty queue exactly when it resumes a call without an idle connection. -/
theorem perform_undefined_iff (p : Pool) (a : Action) :
    ((perform a).run p).1 = .undefined ↔
      a = .dispatch ∧ p.resumes.isSome ∧ p.db.idle = [] := by
  have hmember : ∀ {c : Prop} [Decidable c] {f : Pool → Pool},
      ((if c then Coro.modify f else Coro.suspend : Coro Pool Exn Unit).run p).1 ≠ .undefined := by
    intro c _ f
    by_cases hc : c <;> simp [hc]
  cases a with
  | getConnection call =>
    simp only [perform, getConnection, Coro.run_get_bind, reduceCtorEq, false_and, iff_false]
    by_cases hidle : p.db.idle = []
    · by_cases hlt : p.db.connCount < p.db.maxConnections
      · simp [hidle, hlt]
      · rw [if_neg fun hc => hlt hc.2, if_pos hidle, run_wait]
        simp
    · rw [if_neg fun hc => hidle hc.1, if_neg hidle]
      cases hcons : p.db.idle with
      | nil => exact absurd hcons hidle
      | cons conn idle => simp [takeIdle, hcons]
  | connected call => exact iff_of_false hmember (by simp)
  | connectFailed call => exact iff_of_false hmember (by simp)
  | initialized call conn => exact iff_of_false hmember (by simp)
  | initFailed call conn => exact iff_of_false hmember (by simp)
  | destroy conn => exact iff_of_false hmember (by simp)
  | release conn =>
    simp only [perform, release, Coro.run_get_bind, reduceCtorEq, false_and, iff_false]
    by_cases hconn : conn ∈ p.held
    · rw [if_pos hconn, Coro.run_modify_bind]
      split <;> simp
    · simp [hconn]
  | dispatch =>
    simp only [perform, dispatch, Coro.run_get_bind, resumes, true_and]
    rcases p.loop.runRound with _ | ⟨ev, _ | call, loop⟩
    · simp
    · simp
    · simp only [Coro.run_modify_bind, Option.bind_some, Option.isSome_some, true_and, takeIdle]
      cases p.db.idle <;> simp

theorem idle_of_provided {p : Pool} (h : Provided p) {call : CallId} (hcall : p.resumes = some call) :
    p.db.idle ≠ [] := by
  intro hidle
  rw [Provided, hidle, List.length_nil, Nat.le_zero, List.length_eq_zero_iff] at h
  simp [resumes, EventLoop.runRound, h] at hcall

theorem defined_of_provided {p : Pool} (h : Provided p) (a : Action) :
    ((perform a).run p).1 ≠ .undefined := by
  intro hundefined
  obtain ⟨-, hsome, hidle⟩ := (perform_undefined_iff p a).mp hundefined
  obtain ⟨call, hcall⟩ := Option.isSome_iff_exists.mp hsome
  exact idle_of_provided h hcall hidle

/-- While calls leave enough for those to be woken, a call that resumes finds an idle connection, and
nothing is taken from an empty queue. -/
theorem idle_of_resumes {M : Int} {as : List Action} {p : Pool}
    (hrun : Run (Within LeavesForWoken Step) (new M) as p) :
    (∀ call, p.resumes = some call → p.db.idle ≠ []) ∧
      ∀ a, ((perform a).run p).1 ≠ .undefined := by
  have hprovided : Provided p :=
    hrun.invariant Provided (fun _ _ _ => provided_step) (Nat.le_refl 0)
  exact ⟨fun call => idle_of_provided hprovided, defined_of_provided hprovided⟩

/-- The second of two calls waits, and the first one's connection is released. -/
theorem idle_of_resumes_two : ∃ p : Pool,
    Run (Within LeavesForWoken Step) (new 1) [.getConnection 0, .connected 0, .initialized 0 0,
      .getConnection 1, .release 0] p ∧
    p.resumes = some 1 ∧ p.db.idle ≠ [] := by
  obtain ⟨p, hrun, hresumes⟩ : ∃ p : Pool, Run (Within LeavesForWoken Step) (new 1)
      [.getConnection 0, .connected 0, .initialized 0 0, .getConnection 1, .release 0] p ∧
      p.resumes = some 1 :=
    ⟨_, .cons ⟨by decide, rfl⟩ (.cons ⟨by decide, rfl⟩ (.cons ⟨by decide, rfl⟩
      (.cons ⟨by decide, rfl⟩ (.cons ⟨by decide, rfl⟩ (.nil _))))), rfl⟩
  exact ⟨p, hrun, hresumes, (idle_of_resumes hrun).1 1 hresumes⟩

/-- A third call takes the connection before the second one is woken. -/
theorem not_idle_of_resumes : ∃ p : Pool,
    Run Step (new 1) [.getConnection 0, .connected 0, .initialized 0 0, .getConnection 1,
      .release 0, .getConnection 2] p ∧
    p.resumes = some 1 ∧ p.db.idle = [] ∧ ((perform .dispatch).run p).1 = .undefined := by
  refine ⟨_, .cons rfl (.cons rfl (.cons rfl (.cons rfl (.cons rfl (.cons rfl (.nil _)))))), ?_⟩
  exact ⟨rfl, rfl, rfl⟩

/-! ## The limit -/

/-- A call that starts to connect does so below the limit, those that are connecting included. -/
def CountsConnecting (p : Pool) (a : Action) : Prop :=
  a.isCall → p.db.idle = [] → p.db.connCount < p.db.maxConnections →
    p.db.connCount + p.connecting.length < p.db.maxConnections

instance (p : Pool) (a : Action) : Decidable (CountsConnecting p a) :=
  inferInstanceAs (Decidable (_ → _ → _ → _))

/-- The connections there are: idle, in `init`, or with a client. -/
def opened (p : Pool) : Nat := p.db.idle.length + p.initializing.length + p.held.length

/-- `m_conn_count` is what it is named after. -/
def Counted (p : Pool) : Prop := p.db.connCount = p.opened

theorem counted_step {p p' : Pool} {a : Action} (h : Counted p) (hstep : Step p a p') :
    Counted p' := by
  simp only [Counted, opened] at h ⊢
  cases hstep.effect with
  | connected call hcall =>
    simp only [List.length_append, List.length_singleton]
    omega
  | take call conn idle hidle =>
    simp only [hidle, List.length_cons, List.length_append, List.length_nil] at h ⊢
    omega
  | resume ev events bus conn idle hevents hidle =>
    simp only [hidle, List.length_cons, List.length_append, List.length_nil] at h ⊢
    omega
  | initialized call conn hcall =>
    have hpos := List.length_pos_of_mem hcall
    simp only [List.length_erase_of_mem hcall, List.length_append, List.length_singleton]
    omega
  | initFailed call conn hcall =>
    have hpos := List.length_pos_of_mem hcall
    simp only [List.length_erase_of_mem hcall]
    omega
  | release conn hconn hwaiting =>
    have hpos := List.length_pos_of_mem hconn
    simp only [List.length_erase_of_mem hconn, List.length_append, List.length_singleton]
    omega
  | wake conn id waiting hconn hwaiting =>
    have hpos := List.length_pos_of_mem hconn
    simp only [List.length_erase_of_mem hconn, List.length_append, List.length_singleton]
    omega
  | destroy conn hconn =>
    have hpos := List.length_pos_of_mem hconn
    simp only [List.length_erase_of_mem hconn]
    omega
  | _ => exact h

/-- The connections there are and those that are on their way stay within the limit. -/
def Bounded (M : Int) (p : Pool) : Prop :=
  p.db.maxConnections = M ∧ p.db.connCount + p.connecting.length ≤ M

theorem bounded_step {M : Int} {p p' : Pool} {a : Action} (h : Bounded M p)
    (hstep : Within CountsConnecting Step p a p') : Bounded M p' := by
  obtain ⟨hcounts, hstep⟩ := hstep
  obtain ⟨rfl, h⟩ := h
  cases hstep.effect with
  | connect call hidle hlt =>
    have := hcounts rfl hidle hlt
    exact ⟨rfl, by simp only [List.length_append, List.length_singleton]; omega⟩
  | connected call hcall =>
    have hpos := List.length_pos_of_mem hcall
    exact ⟨rfl, by simp only [List.length_erase_of_mem hcall]; omega⟩
  | connectFailed call hcall =>
    exact ⟨rfl, by simp only [List.length_erase_of_mem hcall]; omega⟩
  | initFailed call conn hcall => exact ⟨rfl, by simp only; omega⟩
  | destroy conn hconn => exact ⟨rfl, by simp only; omega⟩
  | _ => exact ⟨rfl, h⟩

/-- While calls that are connecting count, there are never more connections than the limit. -/
theorem connCount_le {M : Int} (hM : 1 ≤ M) {as : List Action} {p : Pool}
    (hrun : Run (Within CountsConnecting Step) (new M) as p) :
    p.db.connCount ≤ M ∧ p.db.connCount = p.opened := by
  obtain ⟨-, hbound⟩ := hrun.invariant (Bounded M) (fun _ _ _ => bounded_step)
    ⟨rfl, by simp only [new, List.length_nil]; omega⟩
  have hcounted := hrun.invariant Counted (fun _ _ _ h hs => counted_step h hs.2) rfl
  exact ⟨by omega, hcounted⟩

/-- Two calls, the second one after the first one's connect. -/
theorem connCount_le_two : ∃ p : Pool,
    Run (Within CountsConnecting Step) (new 1) [.getConnection 0, .connected 0, .getConnection 1,
      .initialized 0 0] p ∧
    p.db.connCount ≤ 1 ∧ p.db.connCount = p.opened := by
  obtain ⟨p, hrun⟩ : ∃ p : Pool, Run (Within CountsConnecting Step) (new 1)
      [.getConnection 0, .connected 0, .getConnection 1, .initialized 0 0] p :=
    ⟨_, .cons ⟨by decide, rfl⟩ (.cons ⟨by decide, rfl⟩ (.cons ⟨by decide, rfl⟩
      (.cons ⟨by decide, rfl⟩ (.nil _))))⟩
  exact ⟨p, hrun, connCount_le (by decide) hrun⟩

/-- Two calls that connect at the same time. -/
theorem not_connCount_le : ∃ p : Pool,
    Run Step (new 1) [.getConnection 0, .getConnection 1, .connected 0, .connected 1] p ∧
    p.db.connCount = 2 := by
  refine ⟨_, .cons rfl (.cons rfl (.cons rfl (.cons rfl (.nil _)))), rfl⟩

end Pool

end CppEvent
