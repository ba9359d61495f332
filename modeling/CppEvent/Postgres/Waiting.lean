import CppEvent.Postgres.Database

/-!
# Calls that wait for a connection

A call that finds the pool used up waits on a callback of its own, whose id is in `m_waiting` until
`release` takes it from there and has the loop notify it. Nobody else wakes a call: where a connection
is destroyed, or where an event finds its callback gone, what has become free is offered to nobody.
`nothing_to_offer` is what holds in every run in which neither happens at the cost of a call that
waits.
-/

namespace CppEvent

open Coroutine Transition

namespace Pool

/-- The call is suspended on the callback with this id. -/
def WaitsOn (p : Pool) (id : EId) (call : CallId) : Prop :=
  (p.loop.bus.callback id).bind EventCallback.suspended = some call

instance (p : Pool) (id : EId) (call : CallId) : Decidable (p.WaitsOn id call) :=
  inferInstanceAs (Decidable (_ = _))

/-- Where a call of `get_connection` is suspended. -/
inductive Place where
  | connect
  | init (conn : ConnId)
  | wait (id : EId)
  deriving DecidableEq, Repr

/-- A suspended call is destroyed, and what it has constructed with it: nothing in `connect`, the
connection in `init`, the callback where it waits. -/
def abandon (call : CallId) : Place → Coro Pool Exn Unit
  | .connect => connectFailed call
  | .init conn => initFailed call conn
  | .wait id => do
      let p ← Coro.get
      if p.WaitsOn id call then
        Coro.modify fun p => { p with loop.bus := p.loop.bus.deregisterEventCallback id }
      else Coro.suspend

/-- What can happen to a pool whose calls may be destroyed. -/
inductive Happening where
  | action (a : Action)
  | abandon (call : CallId) (place : Place)
  deriving DecidableEq, Repr

def Happens (p : Pool) : Happening → Pool → Prop
  | .action a, p' => Step p a p'
  | .abandon call place, p' => (abandon call place).run p = (.returned (), p')

/-- A call waits, and no event on the queue is for it. -/
def Unwoken (p : Pool) : Prop :=
  ∃ id call, p.WaitsOn id call ∧ ∀ ev ∈ p.loop.events, ev.id ≠ id

def Happening.destroys : Happening → Bool
  | .action (.destroy _) | .action (.initFailed _ _) | .abandon _ (.init _) => true
  | _ => false

/-- While a call waits that is not woken, connections are destroyed only above the limit, and an
event resumes nobody only if the others on the queue are enough for what is idle. A call that begins
to wait gets an id that is not in use. -/
structure KeepsOffer (p : Pool) (h : Happening) : Prop where
  destroy : h.destroys → p.Unwoken → p.db.maxConnections < p.db.connCount
  dispatch : h = .action .dispatch → p.resumes = none → p.Unwoken →
    p.db.idle.length < p.loop.events.length
  wait : ∀ call, h = .action (.getConnection call) → p.db.idle = [] →
    p.db.maxConnections ≤ p.db.connCount →
    p.loop.bus.callback p.loop.bus.registerEventCallback.1 = none

/-! ## What happens to a call that waits -/

theorem unwoken_of_loop_eq {p p' : Pool} (hloop : p'.loop = p.loop) (h : p'.Unwoken) :
    p.Unwoken := by
  simpa only [Unwoken, WaitsOn, hloop] using h

theorem unwoken_of_addEvent {p p' : Pool} {ev : Event} (hloop : p'.loop = p.loop.addEvent ev)
    (h : p'.Unwoken) : p.Unwoken := by
  obtain ⟨id, call, hwaits, hnone⟩ := h
  rw [WaitsOn, hloop] at hwaits
  rw [hloop] at hnone
  exact ⟨id, call, hwaits, fun ev' hev => hnone ev' (List.mem_append_left _ hev)⟩

def waitId (p : Pool) : EId := p.loop.bus.registerEventCallback.1

/-- A call that begins to wait is the one call that waits and did not before. -/
theorem waitsOn_of_wait {call : CallId} {p p' : Pool} (h : Step p (.getConnection call) p')
    (hidle : p.db.idle = []) (hge : p.db.maxConnections ≤ p.db.connCount) :
    p'.db.waiting = p.db.waiting ++ [p.waitId] ∧
      ∀ id c, p'.WaitsOn id c ↔ if p.waitId = id then call = c else p.WaitsOn id c := by
  simp only [Step, perform, getConnection, Coro.run_get_bind, Coro.run_ite] at h
  rw [if_neg (by omega), if_pos hidle, run_wait] at h
  obtain rfl := (Prod.mk.inj h).2
  refine ⟨rfl, fun id c => ?_⟩
  simp only [WaitsOn, EventBus.callback_store, EventBus.callback_registerEventCallback]
  by_cases hid : p.loop.bus.registerEventCallback.1 = id
  · have hid' : p.waitId = id := hid
    rw [if_pos hid, if_pos hid']
    simp
  · have hid' : p.waitId ≠ id := hid
    rw [if_neg hid, if_neg hid, if_neg hid']

theorem waitsOn_notify (b : EventBus CallId) (ev : Event) (id : EId) (c : CallId) :
    ((b.notify ev.id ev.status).2.callback id).bind EventCallback.suspended = some c ↔
      ev.id ≠ id ∧ (b.callback id).bind EventCallback.suspended = some c := by
  cases hcb : b.callback ev.id with
  | none =>
    rw [EventBus.notify_of_none hcb]
    refine ⟨fun h => ⟨?_, h⟩, And.right⟩
    rintro rfl
    simp [hcb] at h
  | some cb =>
    rw [EventBus.notify_of_callback hcb]
    simp only [EventBus.callback_store, EventCallback.notify]
    by_cases hid : ev.id = id <;> simp [hid]

theorem waitsOn_of_abandon {p : Pool} {id j : EId} {c : CallId} :
    ({ p with loop.bus := p.loop.bus.deregisterEventCallback id } : Pool).WaitsOn j c ↔
      id ≠ j ∧ p.WaitsOn j c := by
  simp only [WaitsOn, EventBus.callback_deregisterEventCallback]
  by_cases hid : id = j <;> simp [hid]

/-- After a round of the loop those wait that did before, but for the call the event was for. -/
theorem waitsOn_of_dispatch {p p' : Pool} (h : Step p .dispatch p') {ev : Event}
    {events : List Event} (hevents : p.loop.events = ev :: events) (id : EId) (c : CallId) :
    p'.WaitsOn id c ↔ ev.id ≠ id ∧ p.WaitsOn id c := by
  obtain ⟨ev', events', hevents', hp'⟩ := dispatch_cases h
  obtain ⟨rfl, rfl⟩ := List.cons.inj (hevents.symm.trans hevents')
  obtain ⟨-, rfl⟩ | ⟨call, conn, idle, -, -, rfl⟩ := hp'
  · exact waitsOn_notify _ _ _ _
  · simp only [WaitsOn, EventBus.callback_deregisterEventCallback]
    by_cases hid : ev.id = id
    · simp [hid]
    · simpa [hid] using waitsOn_notify p.loop.bus ev id c

/-! ## The offer -/

/-- `release` will wake the call that waits under this id, or has. -/
def Known (p : Pool) (id : EId) : Prop := id ∈ p.db.waiting ∨ ∃ ev ∈ p.loop.events, ev.id = id

/-- While a call waits that is not woken, what is idle is promised to others, and the limit is
reached. -/
structure Offers (M : Int) (p : Pool) : Prop where
  limit : p.db.maxConnections = M
  known : ∀ id call, p.WaitsOn id call → p.Known id
  idle : p.Unwoken → p.db.idle.length ≤ p.loop.events.length
  full : p.Unwoken → M ≤ p.db.connCount

namespace Offers

variable {M : Int} {p p' : Pool}

theorem new (M : Int) : Offers M (new M) where
  limit := rfl
  known id call h := by cases h
  idle := fun ⟨_, _, h, _⟩ => by cases h
  full := fun ⟨_, _, h, _⟩ => by cases h

theorem waiting_ne_nil (h : Offers M p) (hun : p.Unwoken) : p.db.waiting ≠ [] := by
  obtain ⟨id, call, hwaits, hnone⟩ := hun
  rcases h.known id call hwaits with hmem | ⟨ev, hev, hid⟩
  · exact List.ne_nil_of_mem hmem
  · exact absurd hid (hnone ev hev)

theorem of_loop_eq (h : Offers M p) (hloop : p'.loop = p.loop)
    (hwaiting : p'.db.waiting = p.db.waiting)
    (hlimit : p'.db.maxConnections = p.db.maxConnections)
    (hidle : p.Unwoken → p'.db.idle.length ≤ p.db.idle.length)
    (hfull : p.Unwoken → M ≤ p'.db.connCount) : Offers M p' where
  limit := hlimit.trans h.limit
  known id call hwaits := by
    simp only [WaitsOn, Known, hloop, hwaiting] at hwaits ⊢
    exact h.known id call hwaits
  idle hun := by
    have hun := unwoken_of_loop_eq hloop hun
    rw [hloop]
    exact (hidle hun).trans (h.idle hun)
  full hun := hfull (unwoken_of_loop_eq hloop hun)

theorem wake (h : Offers M p) {conn : ConnId} {id : EId} {waiting : List EId} {held : List ConnId}
    (hwaiting : p.db.waiting = id :: waiting) : Offers M { p with
      db.idle := p.db.idle ++ [conn]
      db.waiting := waiting
      held := held
      loop := p.loop.addEvent { id := id, status := 0 } } := by
  refine ⟨h.limit, fun j c hwaits => ?_, fun hun => ?_,
    fun hun => h.full (unwoken_of_addEvent rfl hun)⟩
  · rcases h.known j c hwaits with hmem | ⟨ev, hev, hid⟩
    · rw [hwaiting] at hmem
      rcases List.mem_cons.mp hmem with rfl | hmem
      · exact .inr ⟨_, List.mem_append_right _ List.mem_cons_self, rfl⟩
      · exact .inl hmem
    · exact .inr ⟨ev, List.mem_append_left _ hev, hid⟩
  · have := h.idle (unwoken_of_addEvent rfl hun)
    simp only [EventLoop.addEvent, List.length_append, List.length_singleton]
    omega

theorem wait (h : Offers M p) {call : CallId} (hstep : Step p (.getConnection call) p')
    (hdb : p'.db.maxConnections = p.db.maxConnections ∧ p'.db.connCount = p.db.connCount ∧
      p'.db.idle = p.db.idle ∧ p'.loop.events = p.loop.events)
    (hidle : p.db.idle = []) (hge : p.db.maxConnections ≤ p.db.connCount) : Offers M p' := by
  obtain ⟨hmax, hcount, hidle', hevents⟩ := hdb
  obtain ⟨hwaiting, hwaits⟩ := waitsOn_of_wait hstep hidle hge
  refine ⟨hmax.trans h.limit, fun id c hw => ?_, fun _ => ?_, fun _ => ?_⟩
  · rw [hwaits] at hw
    simp only [Known, hwaiting, hevents]
    split at hw
    · rename_i hid
      exact .inl (List.mem_append_right _ (by simp [hid]))
    · exact (h.known id c hw).imp_left (List.mem_append_left _)
  · simp [hidle', hidle]
  · rw [hcount, ← h.limit]
    exact hge

/-- An event that resumes a call takes the connection that was promised to it. -/
theorem dispatch (h : Offers M p) (hstep : Step p .dispatch p')
    (hkeeps : p.resumes = none → p.Unwoken → p.db.idle.length < p.loop.events.length) :
    Offers M p' := by
  obtain ⟨ev, events, hevents, hp'⟩ := dispatch_cases hstep
  have hwaits := waitsOn_of_dispatch hstep hevents
  have hevents' : p'.loop.events = events := by obtain ⟨-, rfl⟩ | ⟨_, _, _, -, -, rfl⟩ := hp' <;> rfl
  have hun : p'.Unwoken → p.Unwoken := by
    rintro ⟨id, c, hw, hnone⟩
    obtain ⟨hne, hw⟩ := (hwaits id c).mp hw
    refine ⟨id, c, hw, fun ev' hev' => ?_⟩
    rw [hevents] at hev'
    rcases List.mem_cons.mp hev' with rfl | hev'
    · exact hne
    · exact hnone ev' (hevents' ▸ hev')
  have hknown : ∀ id c, p'.WaitsOn id c → id ∈ p.db.waiting ∨ ∃ ev ∈ events, ev.id = id := by
    intro id c hw
    obtain ⟨hne, hw⟩ := (hwaits id c).mp hw
    refine (h.known id c hw).imp_right fun ⟨ev', hev', hid⟩ => ⟨ev', ?_, hid⟩
    rw [hevents] at hev'
    exact (List.mem_cons.mp hev').resolve_left fun heq => hne (heq ▸ hid)
  have hlength : p.loop.events.length = events.length + 1 := by rw [hevents, List.length_cons]
  obtain ⟨hnone, rfl⟩ | ⟨call, conn, idle, -, hidle, rfl⟩ := hp'
  · refine ⟨h.limit, hknown, fun h' => ?_, fun h' => h.full (hun h')⟩
    have := hkeeps hnone (hun h')
    simp only
    omega
  · refine ⟨h.limit, hknown, fun h' => ?_, fun h' => h.full (hun h')⟩
    have := h.idle (hun h')
    rw [hidle, List.length_cons] at this
    simp only
    omega

theorem abandon (h : Offers M p) (id : EId) :
    Offers M { p with loop.bus := p.loop.bus.deregisterEventCallback id } := by
  have hun : ({ p with loop.bus := p.loop.bus.deregisterEventCallback id } : Pool).Unwoken →
      p.Unwoken := fun ⟨j, c, hw, hnone⟩ => ⟨j, c, (waitsOn_of_abandon.mp hw).2, hnone⟩
  exact ⟨h.limit, fun j c hw => h.known j c (waitsOn_of_abandon.mp hw).2,
    fun h' => h.idle (hun h'), fun h' => h.full (hun h')⟩

end Offers

theorem offers_action {M : Int} {p p' : Pool} {a : Action} (h : Offers M p)
    (hkeeps : KeepsOffer p (.action a)) (hstep : Step p a p') : Offers M p' := by
  have hlower : Happening.destroys (.action a) → p.Unwoken → M ≤ p.db.connCount - 1 := by
    intro hdestroys hun
    have := hkeeps.destroy hdestroys hun
    rw [h.limit] at this
    omega
  cases hstep.effect with
  | connect call hidle hlt => exact h.of_loop_eq rfl rfl rfl (fun _ => le_rfl) h.full
  | wait call id bus hidle hge => exact h.wait hstep ⟨rfl, rfl, rfl, rfl⟩ hidle hge
  | take call conn idle hidle =>
    exact h.of_loop_eq rfl rfl rfl (fun _ => by simp [hidle]) h.full
  | connected call hcall =>
    exact h.of_loop_eq rfl rfl rfl (fun _ => le_rfl) fun hun => Int.le_add_one (h.full hun)
  | connectFailed call hcall => exact h.of_loop_eq rfl rfl rfl (fun _ => le_rfl) h.full
  | initialized call conn hcall => exact h.of_loop_eq rfl rfl rfl (fun _ => le_rfl) h.full
  | initFailed call conn hcall => exact h.of_loop_eq rfl rfl rfl (fun _ => le_rfl) (hlower rfl)
  | release conn hconn hwaiting =>
    exact h.of_loop_eq rfl rfl rfl (fun hun => absurd hwaiting (h.waiting_ne_nil hun)) h.full
  | wake conn id waiting hconn hwaiting => exact h.wake hwaiting
  | destroy conn hconn => exact h.of_loop_eq rfl rfl rfl (fun _ => le_rfl) (hlower rfl)
  | ignore ev events bus hevents => exact h.dispatch hstep (hkeeps.dispatch rfl)
  | resume ev events bus conn idle hevents hidle =>
    exact h.dispatch hstep (hkeeps.dispatch rfl)

theorem offers_abandon {M : Int} {p p' : Pool} {call : CallId} {place : Place} (h : Offers M p)
    (hkeeps : KeepsOffer p (.abandon call place)) (hstep : Happens p (.abandon call place) p') :
    Offers M p' := by
  cases place with
  | connect =>
    obtain ⟨-, rfl⟩ := step_member hstep
    exact h.of_loop_eq rfl rfl rfl (fun _ => le_rfl) h.full
  | init conn =>
    obtain ⟨-, rfl⟩ := step_member hstep
    refine h.of_loop_eq rfl rfl rfl (fun _ => le_rfl) fun hun => ?_
    have := hkeeps.destroy rfl hun
    rw [h.limit] at this
    simp only
    omega
  | wait id =>
    obtain ⟨-, rfl⟩ := step_member hstep
    exact h.abandon id

theorem offers_step {M : Int} {p p' : Pool} {a : Happening} (h : Offers M p)
    (hstep : Within KeepsOffer Happens p a p') : Offers M p' := by
  cases a with
  | action a => exact offers_action h hstep.1 hstep.2
  | abandon call place => exact offers_abandon h hstep.1 hstep.2

/-! ## Calls wait until they are woken -/

theorem resumes_of_waitsOn {p : Pool} {ev : Event} {events : List Event} {call : CallId}
    (hevents : p.loop.events = ev :: events) (hwaits : p.WaitsOn ev.id call) :
    p.resumes = some call := by
  obtain ⟨cb, hcb, hsuspended⟩ := Option.bind_eq_some_iff.mp hwaits
  simp only [resumes, EventLoop.runRound, hevents, EventBus.notify_of_callback hcb,
    Option.bind_some]
  exact hsuspended

theorem waitsOn_action {p p' : Pool} {a : Action} (hkeeps : KeepsOffer p (.action a))
    (hstep : Step p a p') {id : EId} {call : CallId} (hwaits : p.WaitsOn id call) :
    p'.WaitsOn id call ∨ a = .dispatch ∧ p.resumes = some call := by
  have hdispatch : ∀ {ev events}, a = .dispatch → p.loop.events = ev :: events →
      p'.WaitsOn id call ∨ a = .dispatch ∧ p.resumes = some call := by
    rintro ev events rfl hevents
    by_cases hid : ev.id = id
    · subst hid
      exact .inr ⟨rfl, resumes_of_waitsOn hevents hwaits⟩
    · exact .inl ((waitsOn_of_dispatch hstep hevents id call).mpr ⟨hid, hwaits⟩)
  cases hstep.effect with
  | wait c id' bus hidle hge =>
    refine .inl (((waitsOn_of_wait hstep hidle hge).2 id call).mpr ?_)
    have hfree := hkeeps.wait c rfl hidle hge
    rw [if_neg fun hid => ?_]
    · exact hwaits
    · rw [WaitsOn, ← hid, waitId, hfree] at hwaits
      cases hwaits
  | ignore ev events bus hevents => exact hdispatch rfl hevents
  | resume ev events bus conn idle hevents hidle => exact hdispatch rfl hevents
  | _ => exact .inl hwaits

/-- Only its destruction and its resumption end a call's wait. -/
theorem waitsOn_step {p p' : Pool} {a : Happening} (hstep : Within KeepsOffer Happens p a p')
    {id : EId} {call : CallId} (hwaits : p.WaitsOn id call) :
    p'.WaitsOn id call ∨ a = .abandon call (.wait id) ∨
      a = .action .dispatch ∧ p.resumes = some call := by
  obtain ⟨hkeeps, hstep⟩ := hstep
  cases a with
  | action a =>
    refine (waitsOn_action hkeeps hstep hwaits).imp_right ?_
    rintro ⟨rfl, hresumes⟩
    exact .inr ⟨rfl, hresumes⟩
  | abandon c place =>
    cases place with
    | connect =>
      obtain ⟨-, rfl⟩ := step_member hstep
      exact .inl hwaits
    | init conn =>
      obtain ⟨-, rfl⟩ := step_member hstep
      exact .inl hwaits
    | wait id' =>
      obtain ⟨hwaits', rfl⟩ := step_member hstep
      by_cases hid : id' = id
      · subst hid
        rw [WaitsOn] at hwaits hwaits'
        obtain rfl := Option.some.inj (hwaits'.symm.trans hwaits)
        exact .inr (.inl rfl)
      · exact .inl (waitsOn_of_abandon.mpr ⟨hid, hwaits⟩)

/-- While nothing that becomes free is withheld from them, calls wait only for a pool that is used
up, once the loop has no event left. -/
theorem nothing_to_offer {M : Int} {as : List Happening} {p : Pool}
    (hrun : Run (Within KeepsOffer Happens) (new M) as p) :
    (∀ id call, p.WaitsOn id call → p.loop.events = [] →
        p.db.idle = [] ∧ p.db.maxConnections ≤ p.db.connCount) ∧
      ∀ a p', Within KeepsOffer Happens p a p' → ∀ id call, p.WaitsOn id call →
        p'.WaitsOn id call ∨ a = .abandon call (.wait id) ∨
          a = .action .dispatch ∧ p.resumes = some call := by
  refine ⟨fun id call hwaits hevents => ?_, fun a p' hstep id call => waitsOn_step hstep⟩
  have hoffers := hrun.invariant (Offers M) (fun _ _ _ => offers_step) (.new M)
  have hun : p.Unwoken := ⟨id, call, hwaits, by simp [hevents]⟩
  refine ⟨List.eq_nil_of_length_eq_zero ?_, ?_⟩
  · have := hoffers.idle hun
    rwa [hevents, List.length_nil, Nat.le_zero] at this
  · rw [hoffers.limit]
    exact hoffers.full hun

theorem KeepsOffer.of_small {p : Pool} {h : Happening} (hdestroy : h.destroys = false)
    (hdispatch : h ≠ .action .dispatch) (hwait : p.loop.bus.callback p.waitId = none) :
    KeepsOffer p h where
  destroy hd := by simp [hdestroy] at hd
  dispatch hd := absurd hd hdispatch
  wait _ _ _ _ := hwait

/-- The second of two calls waits while the first one keeps its connection. -/
theorem nothing_to_offer_two : ∃ p : Pool,
    Run (Within KeepsOffer Happens) (new 1) [.action (.getConnection 0), .action (.connected 0),
      .action (.initialized 0 0), .action (.getConnection 1)] p ∧
    p.WaitsOn 1 1 ∧ p.loop.events = [] ∧ p.db.idle = [] ∧
    p.db.maxConnections ≤ p.db.connCount := by
  obtain ⟨p, hrun, hwaits, hevents⟩ : ∃ p : Pool, Run (Within KeepsOffer Happens) (new 1)
      [.action (.getConnection 0), .action (.connected 0), .action (.initialized 0 0),
        .action (.getConnection 1)] p ∧ p.WaitsOn 1 1 ∧ p.loop.events = [] :=
    ⟨_, .cons ⟨.of_small rfl (by decide) rfl, rfl⟩ (.cons ⟨.of_small rfl (by decide) rfl, rfl⟩
      (.cons ⟨.of_small rfl (by decide) rfl, rfl⟩ (.cons ⟨.of_small rfl (by decide) rfl, rfl⟩
        (.nil _)))), rfl, rfl⟩
  exact ⟨p, hrun, hwaits, hevents, (nothing_to_offer hrun).1 1 1 hwaits hevents⟩

/-- The first call's connection is destroyed instead of released. -/
theorem not_nothing_to_offer : ∃ p : Pool,
    Run Happens (new 1) [.action (.getConnection 0), .action (.connected 0),
      .action (.initialized 0 0), .action (.getConnection 1), .action (.destroy 0)] p ∧
    p.WaitsOn 1 1 ∧ p.loop.events = [] ∧ p.db.connCount < p.db.maxConnections :=
  ⟨_, .cons rfl (.cons rfl (.cons rfl (.cons rfl (.cons rfl (.nil _))))), rfl, rfl, by decide⟩

end Pool

end CppEvent
