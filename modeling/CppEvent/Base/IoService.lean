import CppEvent.Base.Runtime

/-!
# `io_service`

The ring has 1024 entries for the operations that are started between two calls of `poll`, which
submits them, and `get_sqe` writes to the entry that it gets without a look at it. How many coroutines
the events of the queue wake before the next `poll` is up to the program, so `getSqe_iff`.
-/

namespace CppEvent

open Coroutine Transition

/-- What `io_service` and `io_listener` use of liburing, with rings in `R` and pointers to entries in
`P`. A null pointer is `none`. -/
structure IoUring (R P : Type) where
  /-- `io_uring_queue_init`, for this many entries. -/
  queueInit : Nat → R
  /-- `io_uring_get_sqe`. -/
  getSqe : R → Option P × R
  /-- `io_uring_sqe_set_data64`, through a pointer that is not null. -/
  setData64 : P → EId → R → R
  /-- `io_uring_submit`. -/
  submit : R → R
  /-- A wait of `io_uring_wait_cqe` that is not interrupted: an error, or a completion, with
  `io_uring_cqe_seen`. -/
  waitCqe : R → Except Nat Event → R → Prop
  /-- How many entries the ring has. -/
  entries : R → Nat
  /-- How many of them are taken. -/
  taken : R → Nat

/-- What is documented of liburing. -/
structure IoUring.Documented {R P : Type} (uring : IoUring R P) : Prop where
  /-- The ring has the entries that were asked for, 1024 being a power of two. -/
  entries_queueInit : uring.entries (uring.queueInit 1024) = 1024
  taken_queueInit : uring.taken (uring.queueInit 1024) = 0
  /-- It returns null when all entries are taken. -/
  getSqe_full : ∀ ring, uring.taken ring = uring.entries ring → uring.getSqe ring = (none, ring)
  /-- Otherwise it takes one. -/
  getSqe_free : ∀ ring, uring.taken ring < uring.entries ring → ∃ sqe ring',
    uring.getSqe ring = (some sqe, ring') ∧ uring.entries ring' = uring.entries ring ∧
      uring.taken ring' = uring.taken ring + 1
  setData64 : ∀ sqe data ring, uring.entries (uring.setData64 sqe data ring) = uring.entries ring ∧
    uring.taken (uring.setData64 sqe data ring) = uring.taken ring
  /-- A submission frees them. -/
  submit : ∀ ring, uring.entries (uring.submit ring) = uring.entries ring ∧
    uring.taken (uring.submit ring) = 0
  waitCqe : ∀ ring completion ring', uring.waitCqe ring completion ring' →
    uring.entries ring' = uring.entries ring ∧ uring.taken ring' = uring.taken ring

/-- An event loop with the ring of its `io_service`. -/
structure IoService (H R : Type) where
  runtime : Runtime H
  ring : R

namespace IoService

variable {H R P α : Type} (uring : IoUring R P)

variable (H) in
def new : IoService H R where
  runtime := .new H
  ring := uring.queueInit 1024

def onRing (t : Coro R Exn α) : Coro (IoService H R) Exn α :=
  Coro.focus ring (fun ring s => { s with ring := ring }) t

def onRuntime (t : Coro (Runtime H) Exn α) : Coro (IoService H R) Exn α :=
  Coro.focus runtime (fun runtime s => { s with runtime := runtime }) t

/-- `io_listener::get_sqe` of the listener whose callback has this id. -/
def getSqe (id : EId) : Coro R Exn (Option P) := do
  let ring ← Coro.get
  let sqe := (uring.getSqe ring).1
  Coro.modify fun _ => (uring.getSqe ring).2
  -- not checked: the data goes through the pointer whatever it is
  match sqe with
  | some place => Coro.modify (uring.setData64 place id)
  | none => Coro.stuck
  pure sqe

/-- What the operations of an `io_listener` have in common: an entry is taken, and the status of the
callback awaited. -/
def startOperation (id : EId) (handle : H) : Coro (IoService H R) Exn Int := do
  let _ ← onRing (getSqe uring id)
  onRuntime (Runtime.awaitStatus id handle)

/-- What `io_service::poll` makes of the end of its wait. -/
def polled : Except Nat Event → Except Exn Event
  | .error waitStatus => .error (.systemError "Failed to wait cqe: " waitStatus)
  | .ok ev => .ok ev

/-- A round of `event_loop::run` that finds the queue empty, with the ring that `poll` leaves. -/
def afterPoll (s : IoService H R) (completion : Except Nat Event) (ring : R) : IoService H R :=
  match polled completion with
  | .ok ev => { runtime := { s.runtime with loop := s.runtime.loop.addEvent ev }, ring := ring }
  | .error _ => { s with ring := ring }

/-- What can happen to a loop: the steps that do not concern the ring, an operation that a coroutine
starts, with the entry that `io_uring_get_sqe` obtains for it, and `poll`. -/
inductive Action (H P : Type) where
  | loop (a : Runtime.Action H)
  | start (id : EId) (handle : H) (sqe : Option P) (outcome : Outcome Exn Int)
  | poll (polled : Except Exn Event)

inductive Step [DecidableEq H] : IoService H R → Action H P → IoService H R → Prop
  | loop (s : IoService H R) (a : Runtime.Action H) (r : Runtime H)
      (hstep : Runtime.Step s.runtime a r) (hpoll : ∀ ev, a ≠ .poll ev) :
      Step s (.loop a) { s with runtime := r }
  | start (s : IoService H R) (id : EId) (handle : H) (hcallback : (s.runtime.callback id).isSome)
      (hfree : handle ∉ s.runtime.waiting.map Prod.fst) :
      Step s (.start id handle (uring.getSqe s.ring).1 ((startOperation uring id handle).run s).1)
        ((startOperation uring id handle).run s).2
  | poll (s : IoService H R) (completion : Except Nat Event) (ring : R)
      (hempty : s.runtime.loop.events = [])
      (hwait : uring.waitCqe (uring.submit s.ring) completion ring) :
      Step s (.poll (polled completion)) (s.afterPoll completion ring)

/-! ## One operation -/

variable {uring}

theorem startOperation_full (h : uring.Documented) {s : IoService H R}
    (hfull : uring.taken s.ring = uring.entries s.ring) (id : EId) (handle : H) :
    (startOperation uring id handle).run s = (.undefined, s) := by
  have hget : (getSqe uring id).run s.ring = (.undefined, s.ring) := by
    rw [getSqe, Coro.run_get_bind, h.getSqe_full _ hfull]
    rfl
  exact Coro.bind_undefined _ (Coro.run_focus hget)

theorem startOperation_free (h : uring.Documented) {s : IoService H R}
    (hfree : uring.taken s.ring < uring.entries s.ring) (id : EId) (handle : H) :
    ∃ sqe ring, (uring.getSqe s.ring).1 = some sqe ∧
      uring.entries ring = uring.entries s.ring ∧ uring.taken ring = uring.taken s.ring + 1 ∧
      (startOperation uring id handle).run s =
        (((Runtime.awaitStatus id handle).run s.runtime).1,
          { runtime := ((Runtime.awaitStatus id handle).run s.runtime).2, ring := ring }) := by
  obtain ⟨sqe, ring, hsqe, hentries, htaken⟩ := h.getSqe_free s.ring hfree
  obtain ⟨hentries', htaken'⟩ := h.setData64 sqe id ring
  have hget : (getSqe uring id).run s.ring =
      (.returned (some sqe), uring.setData64 sqe id ring) := by
    rw [getSqe, Coro.run_get_bind, hsqe]
    rfl
  exact ⟨sqe, _, congrArg Prod.fst hsqe, hentries'.trans hentries, htaken'.trans htaken,
    (Coro.bind_returned _ (Coro.run_focus hget)).trans (Coro.run_focus rfl)⟩

theorem awaitStatus_ne_undefined {r : Runtime H} {id : EId} (h : (r.callback id).isSome)
    (handle : H) : ((Runtime.awaitStatus id handle).run r).1 ≠ .undefined := by
  obtain ⟨cb, hcb⟩ := Option.isSome_iff_exists.mp h
  rw [Runtime.run_awaitStatus hcb]
  obtain ⟨_ | status, _ | first⟩ := cb <;> exact fun h => by cases h

/-! ## Whole runs -/

/-- How many operations a run has started since it last called `poll`. -/
def sincePoll (as : List (Action H P)) : Nat :=
  as.foldl (fun n a => match a with
    | .start _ _ _ _ => n + 1
    | .poll _ => 0
    | .loop _ => n) 0

/-- Every operation has obtained an entry, and has written to it. -/
def Obtains (as : List (Action H P)) : Prop := ∀ id handle sqe outcome,
  .start id handle sqe outcome ∈ as → sqe.isSome ∧ outcome ≠ .undefined

/-- The run never starts more operations than the ring has entries without a `poll`. -/
def Spaced (entries : Nat) (as : List (Action H P)) : Prop :=
  ∀ pre, pre <+: as → sincePoll pre ≤ entries

theorem obtains_concat (as : List (Action H P)) (a : Action H P) :
    Obtains (as ++ [a]) ↔ Obtains as ∧ Obtains [a] := by
  simp only [Obtains, List.mem_append]
  constructor
  · exact fun h => ⟨fun id handle sqe outcome ha => h id handle sqe outcome (.inl ha),
      fun id handle sqe outcome ha => h id handle sqe outcome (.inr ha)⟩
  · rintro ⟨has, ha⟩ id handle sqe outcome (hmem | hmem)
    · exact has id handle sqe outcome hmem
    · exact ha id handle sqe outcome hmem

theorem spaced_concat (entries : Nat) (as : List (Action H P)) (a : Action H P) :
    Spaced entries (as ++ [a]) ↔ Spaced entries as ∧ sincePoll (as ++ [a]) ≤ entries := by
  simp only [Spaced, List.prefix_concat_iff]
  constructor
  · exact fun h => ⟨fun pre hpre => h pre (.inr hpre), h _ (.inl rfl)⟩
  · rintro ⟨has, ha⟩ pre (rfl | hpre)
    · exact ha
    · exact has pre hpre

variable (uring) in
/-- What a run has come to: the ring holds what has been started since the last `poll`, as far as it
has room. -/
structure Filled (entries : Nat) (as : List (Action H P)) (s : IoService H R) : Prop where
  room : uring.entries s.ring = entries
  taken : uring.taken s.ring = min (sincePoll as) entries
  obtains : Obtains as ↔ Spaced entries as

theorem filled_start (h : uring.Documented) {entries : Nat} {as : List (Action H P)}
    {s : IoService H R} (hs : Filled uring entries as s) {id : EId} {handle : H}
    (hcallback : (s.runtime.callback id).isSome) :
    Filled uring entries
      (as ++ [.start id handle (uring.getSqe s.ring).1 ((startOperation uring id handle).run s).1])
      ((startOperation uring id handle).run s).2 := by
  have hsince : ∀ sqe outcome,
      sincePoll (as ++ [.start id handle sqe outcome]) = sincePoll as + 1 := fun sqe outcome => by
    rw [sincePoll, List.foldl_concat, sincePoll]
  by_cases hlt : uring.taken s.ring < uring.entries s.ring
  · obtain ⟨sqe, ring, hsqe, hentries, htaken, hrun⟩ := startOperation_free h hlt id handle
    rw [hrun, hsqe]
    rw [hs.taken, hs.room] at hlt
    refine ⟨hentries.trans hs.room, ?_, ?_⟩
    · rw [hsince]
      show uring.taken ring = _
      rw [htaken, hs.taken]
      omega
    · rw [obtains_concat, spaced_concat, hsince, hs.obtains]
      refine and_congr_right fun _ => iff_of_true ?_ (by omega)
      intro id' handle' sqe' outcome hmem
      cases List.mem_singleton.mp hmem
      exact ⟨rfl, awaitStatus_ne_undefined hcallback handle⟩
  · have hfull : uring.taken s.ring = uring.entries s.ring := by
      have := hs.taken
      have := hs.room
      omega
    rw [startOperation_full h hfull]
    rw [hs.taken, hs.room] at hlt
    refine ⟨hs.room, ?_, ?_⟩
    · rw [hsince, hs.taken]
      omega
    · rw [obtains_concat, spaced_concat, hsince, hs.obtains]
      refine and_congr_right fun _ => iff_of_false ?_ (by omega)
      intro hall
      exact (hall _ _ _ _ (List.mem_singleton_self _)).2 rfl

variable [DecidableEq H]

theorem filled_step (h : uring.Documented) {entries : Nat} {as : List (Action H P)}
    {s s' : IoService H R} {a : Action H P} (hs : Filled uring entries as s)
    (hstep : Step uring s a s') : Filled uring entries (as ++ [a]) s' := by
  have hother : (∀ id handle sqe outcome, a ≠ .start id handle sqe outcome) →
      sincePoll (as ++ [a]) ≤ sincePoll as →
      (Obtains (as ++ [a]) ↔ Spaced entries (as ++ [a])) := by
    intro hne hle
    rw [obtains_concat, spaced_concat, hs.obtains]
    refine and_congr_right fun hspaced => iff_of_true ?_ ?_
    · intro id handle sqe outcome hmem
      exact absurd (List.mem_singleton.mp hmem).symm (hne id handle sqe outcome)
    · exact hle.trans (hspaced as (List.prefix_refl as))
  cases hstep with
  | loop a r hstep hpoll =>
    have hsince : sincePoll (as ++ [.loop a]) = sincePoll as := by
      rw [sincePoll, List.foldl_concat, sincePoll]
    exact ⟨hs.room, hs.taken.trans (by rw [hsince]), hother (by simp) (Nat.le_of_eq hsince)⟩
  | start id handle hcallback hfree => exact filled_start h hs hcallback
  | poll completion ring hempty hwait =>
    have hsince : ∀ polled, sincePoll (as ++ [.poll polled]) = 0 := fun polled => by
      rw [sincePoll, List.foldl_concat]
    obtain ⟨hentries, htaken⟩ := h.submit s.ring
    obtain ⟨hentries', htaken'⟩ := h.waitCqe _ _ _ hwait
    have hring : (s.afterPoll completion ring).ring = ring := by cases completion <;> rfl
    refine ⟨by rw [hring, hentries', hentries, hs.room], ?_, hother (by simp) ?_⟩
    · rw [hring, htaken', htaken, hsince]
      exact (Nat.zero_min _).symm
    · rw [hsince]
      exact Nat.zero_le _

/-- Every operation of a run obtains an entry exactly if it never starts more than 1024 between two
calls of `poll`. -/
theorem getSqe_iff (h : uring.Documented) {as : List (Action H P)} {s : IoService H R}
    (hrun : Run (Step uring) (new H uring) as s) : Obtains as ↔ Spaced 1024 as := by
  refine (hrun.trace_invariant (Filled uring 1024) (fun as s a s' => filled_step h)
    ⟨h.entries_queueInit, h.taken_queueInit, ?_⟩).obtains
  refine iff_of_true (fun _ _ _ _ h => absurd h List.not_mem_nil) fun pre hpre => ?_
  rw [List.prefix_nil.mp hpre]
  exact Nat.zero_le _

/-! ## A ring -/

/-- The entries that have been taken since the last submission, and the operations that have been
submitted and have not completed. An entry is its user data, once it has been set. -/
structure Ring where
  size : Nat
  slots : List (Option EId)
  submitted : List (Option EId)

/-- A pointer is the place of the entry; a completion is that of a submitted operation. -/
def ringing : IoUring Ring Nat where
  queueInit size := { size := size, slots := [], submitted := [] }
  getSqe ring :=
    if ring.slots.length < ring.size then
      (some ring.slots.length, { ring with slots := ring.slots ++ [none] })
    else (none, ring)
  setData64 place data ring := { ring with slots := ring.slots.set place (some data) }
  submit ring := { ring with slots := [], submitted := ring.submitted ++ ring.slots }
  waitCqe ring completion ring' :=
    match completion with
    | .error _ => ring' = ring
    | .ok ev => some ev.id ∈ ring.submitted ∧
        ring' = { ring with submitted := ring.submitted.erase (some ev.id) }
  entries ring := ring.size
  taken ring := ring.slots.length

theorem documented_ringing : ringing.Documented where
  entries_queueInit := rfl
  taken_queueInit := rfl
  getSqe_full ring hfull := if_neg (Nat.not_lt.mpr (Nat.le_of_eq hfull.symm))
  getSqe_free ring hfree := ⟨_, _, if_pos hfree, rfl, List.length_append⟩
  setData64 _ _ _ := ⟨rfl, List.length_set⟩
  submit _ := ⟨rfl, rfl⟩
  waitCqe ring completion ring' hwait := by
    cases completion with
    | error waitStatus =>
      obtain rfl := hwait
      exact ⟨rfl, rfl⟩
    | ok ev =>
      obtain ⟨-, rfl⟩ := hwait
      exact ⟨rfl, rfl⟩

/-! ## Runs with many listeners -/

/-- There are `n` listeners, and nothing has been started. -/
structure Ready (n : Nat) (s : IoService H Ring) : Prop where
  idCounter : s.runtime.loop.bus.idCounter = n
  callback : ∀ id, 0 < id → id ≤ n → s.runtime.callback id = some (.new H)
  waiting : s.runtime.waiting = []
  events : s.runtime.loop.events = []
  ring : s.ring = ringing.queueInit 1024

def constructs (n : Nat) : List (Action H Nat) :=
  (List.range' 1 n).map fun id => .loop (.register id)

theorem run_constructs {n : Nat} (hn : n < 2 ^ 64) :
    ∃ s : IoService H Ring, Run (Step ringing) (new H ringing) (constructs n) s ∧ Ready n s := by
  induction n with
  | zero => exact ⟨new H ringing, .nil _, rfl, fun id h h' => by omega, rfl, rfl, rfl⟩
  | succ n ih =>
    obtain ⟨s, hrun, hs⟩ := ih (by omega)
    have hid : s.runtime.loop.bus.registerEventCallback.1 = n + 1 := by
      rw [← hs.idCounter] at hn ⊢
      exact Nat.mod_eq_of_lt hn
    have hstep : Step ringing s _ _ := .loop s _ _ (.register s.runtime) fun ev h => by cases h
    rw [hid] at hstep
    have hrun' := hrun.append (.cons hstep (.nil _))
    have hall : constructs (n + 1) = constructs (H := H) n ++ [.loop (.register (n + 1))] := by
      rw [constructs, List.range'_concat, List.map_append, Nat.one_mul, Nat.add_comm 1 n]
      rfl
    rw [hall]
    refine ⟨_, hrun', hid, fun id hpos hle => ?_, hs.waiting, hs.events, hs.ring⟩
    refine (EventBus.callback_registerEventCallback _ _).trans ?_
    rw [hid]
    split
    · rfl
    · rename_i hne
      exact hs.callback id hpos (Nat.le_of_lt_succ (Nat.lt_of_le_of_ne hle (Ne.symm hne)))

/-- The ring holds `k` operations, and the listeners after the first `k` are as they were. -/
structure Started (n k : Nat) (s : IoService Nat Ring) : Prop where
  callback : ∀ id, k < id → id ≤ n → s.runtime.callback id = some (.new Nat)
  waiting : ∀ p ∈ s.runtime.waiting, p.1 ≤ k
  size : s.ring.size = 1024
  slots : s.ring.slots.length = k

/-- Each of the listeners starts an operation for a coroutine of its own. -/
def starts (n : Nat) : List (Action Nat Nat) :=
  (List.range' 1 n).map fun id => .start id id (some (id - 1)) .suspended

theorem getSqe_ringing {ring : Ring} (h : ring.slots.length < ring.size) (id : EId) :
    (getSqe ringing id).run ring = (.returned (some ring.slots.length),
      { ring with slots := ring.slots ++ [some id] }) := by
  have hsqe : ringing.getSqe ring =
      (some ring.slots.length, { ring with slots := ring.slots ++ [none] }) := if_pos h
  rw [getSqe, Coro.run_get_bind, hsqe]
  show (_, { ring with slots := (ring.slots ++ [none]).set ring.slots.length (some id) }) = _
  rw [List.set_append_right _ _ (Nat.le_refl _), Nat.sub_self, List.set_cons_zero]

theorem step_start {s : IoService Nat Ring} {id : EId} (handle : Nat)
    (hnew : s.runtime.callback id = some (.new Nat))
    (hfree : handle ∉ s.runtime.waiting.map Prod.fst) (hroom : s.ring.slots.length < s.ring.size) :
    Step ringing s (.start id handle (some s.ring.slots.length) .suspended)
      { runtime := ((Runtime.awaitStatus id handle).run s.runtime).2
        ring := { s.ring with slots := s.ring.slots ++ [some id] } } := by
  have hstep : Step ringing s _ _ := .start s id handle (by rw [hnew]; rfl) hfree
  have hsqe : (ringing.getSqe s.ring).1 = some s.ring.slots.length := congrArg Prod.fst (if_pos hroom)
  have hrun : (startOperation ringing id handle).run s =
      (((Runtime.awaitStatus id handle).run s.runtime).1,
        { runtime := ((Runtime.awaitStatus id handle).run s.runtime).2
          ring := { s.ring with slots := s.ring.slots ++ [some id] } }) :=
    (Coro.bind_returned _ (Coro.run_focus (getSqe_ringing hroom id))).trans (Coro.run_focus rfl)
  have hawait : ((Runtime.awaitStatus id handle).run s.runtime).1 = .suspended := by
    rw [Runtime.run_awaitStatus hnew, EventCallback.awaitStatus_new]
  rwa [hsqe, hrun, hawait] at hstep

theorem run_starts {n k : Nat} {s : IoService Nat Ring} (hs : Started n 0 s) (hn : k ≤ n)
    (hk : k ≤ 1024) : ∃ s', Run (Step ringing) s (starts k) s' ∧ Started n k s' := by
  induction k with
  | zero => exact ⟨s, .nil _, hs⟩
  | succ k ih =>
    obtain ⟨s', hrun, hs'⟩ := ih (by omega) (by omega)
    have hnew := hs'.callback (k + 1) (by omega) hn
    have hstep := step_start (k + 1) hnew (fun hmem => by
      obtain ⟨p, hp, heq⟩ := List.mem_map.mp hmem
      have := hs'.waiting p hp
      omega) (by rw [hs'.size, hs'.slots]; omega)
    rw [Runtime.run_awaitStatus hnew, EventCallback.awaitStatus_new, hs'.slots] at hstep
    have hrun' := hrun.append (.cons hstep (.nil _))
    have hall : starts (k + 1) = starts k ++ [.start (k + 1) (k + 1) (some k) .suspended] := by
      rw [starts, List.range'_concat, List.map_append, Nat.one_mul, Nat.add_comm 1 k]
      rfl
    rw [hall]
    refine ⟨_, hrun', fun id hid hle => ?_, fun p hp => ?_, hs'.size, ?_⟩
    · refine (EventBus.callback_store _ _ _ _).trans ?_
      rw [if_neg (Nat.ne_of_lt hid)]
      exact hs'.callback id (Nat.lt_of_succ_lt hid) hle
    · rcases List.mem_append.mp hp with hp | hp
      · exact Nat.le_succ_of_le (hs'.waiting p hp)
      · rw [List.mem_singleton.mp hp]
    · show (s'.ring.slots ++ [some (k + 1)]).length = k + 1
      rw [List.length_append, hs'.slots, List.length_singleton]

def wakes : List (Action Nat Nat) :=
  [.start 1 0 (some 0) .suspended, .poll (.ok ⟨1, 0⟩), .loop (.dispatch ⟨1, 0⟩ (some 0))]

theorem run_wakes {n : Nat} {s : IoService Nat Ring} (hs : Ready n s) (hn : 0 < n) :
    ∃ s', Run (Step ringing) s wakes s' ∧ Started n 0 s' := by
  have hnew := hs.callback 1 Nat.one_pos hn
  obtain ⟨⟨⟨events, bus⟩, waiting⟩, ring⟩ := s
  obtain rfl : waiting = [] := hs.waiting
  obtain rfl : events = [] := hs.events
  obtain rfl : ring = ringing.queueInit 1024 := hs.ring
  let kept := bus.store 1 { status := none, suspended := some 0 }
  have hkept : kept.callback 1 = some { status := none, suspended := some 0 } :=
    (EventBus.callback_store _ _ _ _).trans (if_pos rfl)
  have hstart := step_start 0 hnew List.not_mem_nil (Nat.zero_lt_succ 1023)
  rw [Runtime.run_awaitStatus hnew, EventCallback.awaitStatus_new] at hstart
  have hpoll : Step ringing ⟨⟨⟨[], kept⟩, [(0, 1)]⟩, ⟨1024, [some 1], []⟩⟩ _ _ :=
    .poll _ (.ok ⟨1, 0⟩) (ringing.queueInit 1024) rfl ⟨List.mem_singleton_self _, rfl⟩
  have hdispatch : Step ringing ⟨⟨⟨[⟨1, 0⟩], kept⟩, [(0, 1)]⟩, ringing.queueInit 1024⟩ _ _ :=
    .loop _ _ _ (.dispatch _ ⟨1, 0⟩ [] rfl) fun ev hev => by cases hev
  have hresumed : (kept.deliver 1 0).1 = some 0 := by
    rw [EventBus.deliver_fst, hkept, Option.bind_some]
  rw [hresumed] at hdispatch
  refine ⟨_, .cons hstart (.cons hpoll (.cons hdispatch (.nil _))), fun id hpos hle => ?_,
    fun p hp => ?_, rfl, rfl⟩
  · refine (EventBus.callback_deliver _ _ _ _).trans ?_
    rw [hkept]
    by_cases hid : 1 = id
    · rw [if_pos hid]
      rfl
    · rw [if_neg hid, EventBus.callback_store, if_neg hid]
      exact hs.callback id hpos hle
  · have hp₀ : p = (0, 1) := List.mem_singleton.mp (List.mem_filter.mp hp).1
    rw [hp₀]

theorem getSqe_iff_wakes : ∃ s : IoService Nat Ring, ringing.Documented ∧
    Run (Step ringing) (new Nat ringing) (constructs 1 ++ wakes) s ∧
      Obtains (constructs 1 ++ wakes) := by
  obtain ⟨s₁, hconstruct, hs₁⟩ := run_constructs (H := Nat) (n := 1) (by decide)
  obtain ⟨s₂, hwake, -⟩ := run_wakes hs₁ (by decide)
  have hrun := hconstruct.append hwake
  refine ⟨s₂, documented_ringing, hrun, (getSqe_iff documented_ringing hrun).mpr fun pre hpre => ?_⟩
  have hall : ∀ pre ∈ (constructs 1 ++ wakes).inits, sincePoll pre ≤ 1024 := by decide
  exact hall pre ((List.mem_inits _ _).mpr hpre)

/-- 1025 coroutines that one event leads to start an operation each, and the last gets no entry. -/
theorem getSqe_null : ∃ s : IoService Nat Ring,
    let as := constructs 1025 ++ wakes ++ starts 1024 ++ [.start 1025 1025 none .undefined]
    ringing.Documented ∧ Run (Step ringing) (new Nat ringing) as s ∧ ¬ Obtains as := by
  obtain ⟨s₁, hconstruct, hs₁⟩ := run_constructs (H := Nat) (n := 1025) (by decide)
  obtain ⟨s₂, hwake, hs₂⟩ := run_wakes hs₁ (by decide)
  obtain ⟨s₃, hstarts, hs₃⟩ := run_starts (k := 1024) hs₂ (by decide) (by decide)
  have hnew := hs₃.callback 1025 (by decide) (by decide)
  have hlast : Step ringing s₃ _ _ := .start s₃ 1025 1025 (by rw [hnew]; rfl) fun hmem => by
    obtain ⟨p, hp, heq⟩ := List.mem_map.mp hmem
    have := hs₃.waiting p hp
    omega
  have hfull : ringing.taken s₃.ring = ringing.entries s₃.ring := hs₃.slots.trans hs₃.size.symm
  rw [startOperation_full documented_ringing hfull, documented_ringing.getSqe_full _ hfull] at hlast
  refine ⟨s₃, documented_ringing, ((hconstruct.append hwake).append hstarts).append
    (.cons hlast (.nil _)), fun h => ?_⟩
  exact (h _ _ _ _ (List.mem_append_right _ (List.mem_singleton_self _))).2 rfl

end IoService

end CppEvent
