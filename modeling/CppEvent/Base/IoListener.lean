import CppEvent.Base.Event
import CppEvent.Library.Transition

/-!
# `io_listener`

A listener submits its operations to the ring under the id of its one callback. The loop polls a
completion only when its queue is empty, and delivers it next, so a completion is one step here.

The ring does not know which await a completion is for, and the callback does not know which
operation: a coroutine that is destroyed leaves an operation behind whose completion meets whoever
comes next. `completions_match` says when none can.
-/

namespace CppEvent

open Coroutine Transition

/-- An operation, numbered in the order of the calls of `on_recv`, `on_send` and so on. The coroutine
that awaits it goes by the same number. -/
abbrev OpId := Nat

/-- `io_listener`, with the entries of the ring that are its own and the coroutines suspended on it.
`finished` are the awaits that have returned, with what they returned; `completed` are the operations
that have completed, with their results. -/
structure IoListener where
  callback : EventCallback OpId
  ring : List OpId
  waiting : List OpId
  started : Nat
  finished : List (OpId × Int)
  completed : List (OpId × Int)

namespace IoListener

def new : IoListener where
  callback := .new OpId
  ring := []
  waiting := []
  started := 0
  finished := []
  completed := []

/-- `get_sqe` and `co_await get_status_awaiter()`, up to where the coroutine is suspended. -/
def start (s : IoListener) : IoListener :=
  let op := s.started
  let (outcome, callback) := (EventCallback.awaitStatus op).run s.callback
  { s with
    callback := callback
    ring := s.ring ++ [op]
    waiting := if outcome = .suspended then s.waiting ++ [op] else s.waiting
    started := op + 1
    finished := match outcome with
      | .returned status => s.finished ++ [(op, status)]
      | _ => s.finished }

/-- A coroutine is destroyed while it is suspended on the listener. -/
def destroy (s : IoListener) (op : OpId) : IoListener :=
  { s with callback := s.callback.reset, waiting := s.waiting.erase op }

def complete (s : IoListener) (op : OpId) (status : Int) : IoListener :=
  let (resumed, callback) := s.callback.deliver status
  { s with
    callback := callback
    ring := s.ring.erase op
    waiting := match resumed with
      | some handle => s.waiting.erase handle
      | none => s.waiting
    finished := match resumed with
      | some handle => s.finished ++ [(handle, status)]
      | none => s.finished
    completed := s.completed ++ [(op, status)] }

inductive Action where
  | start
  | destroy (op : OpId)
  | complete (op : OpId) (status : Int)
  deriving DecidableEq

/-- The steps of a listener. The kernel completes every entry once, in any order. -/
inductive Step : IoListener → Action → IoListener → Prop
  | start (s : IoListener) : Step s .start s.start
  | destroy (s : IoListener) (op : OpId) (hwaiting : op ∈ s.waiting) :
      Step s (.destroy op) (s.destroy op)
  | complete (s : IoListener) (op : OpId) (status : Int) (hring : op ∈ s.ring) :
      Step s (.complete op status) (s.complete op status)

/-- Every await that has returned returned the result of its own operation. -/
def Matches (s : IoListener) : Prop := ∀ p ∈ s.finished, p ∈ s.completed

/-- An operation is started while nothing is left of earlier ones, neither an entry in the ring nor a
status on the callback; or else while a coroutine is suspended on the listener, which turns the new
one away. -/
def StartsClean (s : IoListener) (a : Action) : Prop :=
  a = .start → s.callback.suspended ≠ none ∨ s.callback.status = none ∧ s.ring = []

instance (s : IoListener) (a : Action) : Decidable (StartsClean s a) :=
  inferInstanceAs (Decidable (_ → _))

/-- The coroutine on the callback is that of the only operation in the ring. -/
structure Clean (s : IoListener) : Prop where
  ring : ∀ op, s.callback.suspended = some op → s.ring = [op]
  status : s.callback.suspended ≠ none → s.callback.status = none
  submitted : ∀ op ∈ s.ring, op < s.started
  completed : ∀ p ∈ s.completed, p.1 < s.started
  matched : Matches s

theorem start_of_suspended {s : IoListener} {op : OpId} (hs : s.callback.suspended = some op)
    (hstatus : s.callback.status = none) :
    s.start = { s with
      callback := .new OpId, ring := s.ring ++ [s.started], started := s.started + 1 } := by
  simp only [start, EventCallback.awaitStatus_of_suspended hstatus hs]
  rfl

theorem start_of_none {s : IoListener} (hs : s.callback.suspended = none)
    (hstatus : s.callback.status = none) :
    s.start = { s with
      callback := { status := none, suspended := some s.started }
      ring := s.ring ++ [s.started]
      waiting := s.waiting ++ [s.started]
      started := s.started + 1 } := by
  obtain ⟨⟨status, suspended⟩, _⟩ := s
  obtain rfl : suspended = none := hs
  obtain rfl : status = none := hstatus
  rfl

theorem start_of_status {s : IoListener} {status : Int} (hstatus : s.callback.status = some status) :
    s.start = { s with
      callback := .new OpId
      ring := s.ring ++ [s.started]
      started := s.started + 1
      finished := s.finished ++ [(s.started, status)] } := by
  simp only [start, EventCallback.awaitStatus_of_status hstatus]
  rfl

theorem complete_of_suspended {s : IoListener} {handle : OpId}
    (hs : s.callback.suspended = some handle) (op : OpId) (status : Int) :
    s.complete op status = { s with
      callback := .new OpId
      ring := s.ring.erase op
      waiting := s.waiting.erase handle
      finished := s.finished ++ [(handle, status)]
      completed := s.completed ++ [(op, status)] } := by
  simp only [complete, EventCallback.deliver, EventCallback.notify, hs]
  rfl

theorem complete_of_none {s : IoListener} (hs : s.callback.suspended = none) (op : OpId)
    (status : Int) :
    s.complete op status = { s with
      callback := { status := some status, suspended := none }
      ring := s.ring.erase op
      completed := s.completed ++ [(op, status)] } := by
  simp only [complete, EventCallback.deliver, EventCallback.notify, hs]

theorem clean_new : Clean new where
  ring := fun op h => by cases h
  status := fun _ => rfl
  submitted := fun op h => by cases h
  completed := fun p h => by cases h
  matched := fun p h => by cases h

theorem clean_start {s : IoListener} (h : Clean s)
    (hclean : s.callback.suspended ≠ none ∨ s.callback.status = none ∧ s.ring = []) :
    Clean s.start := by
  have hsubmitted : ∀ op ∈ s.ring ++ [s.started], op < s.started + 1 := by
    intro op hop
    rcases List.mem_append.mp hop with hop | hop
    · exact Nat.lt_succ_of_lt (h.submitted op hop)
    · exact Nat.lt_succ_of_le (Nat.le_of_eq (List.mem_singleton.mp hop))
  have hcompleted : ∀ p ∈ s.completed, p.1 < s.started + 1 :=
    fun p hp => Nat.lt_succ_of_lt (h.completed p hp)
  cases hs : s.callback.suspended with
  | some op =>
    rw [start_of_suspended hs (h.status (by simp [hs]))]
    exact ⟨fun op hop => (by cases hop), fun _ => rfl, hsubmitted, hcompleted, h.matched⟩
  | none =>
    obtain ⟨hstatus, hring⟩ := hclean.resolve_left fun hne => hne hs
    rw [start_of_none hs hstatus]
    refine ⟨fun op hop => ?_, fun _ => rfl, hsubmitted, hcompleted, h.matched⟩
    rw [hring, ← Option.some.inj hop]
    rfl

theorem clean_complete {s : IoListener} (h : Clean s) {op : OpId} (hop : op ∈ s.ring)
    (status : Int) : Clean (s.complete op status) := by
  have hsubmitted : ∀ op' ∈ s.ring.erase op, op' < s.started :=
    fun op' hop' => h.submitted op' (List.mem_of_mem_erase hop')
  have hcompleted : ∀ p ∈ s.completed ++ [(op, status)], p.1 < s.started := by
    intro p hp
    rcases List.mem_append.mp hp with hp | hp
    · exact h.completed p hp
    · rw [List.mem_singleton.mp hp]
      exact h.submitted op hop
  cases hs : s.callback.suspended with
  | some handle =>
    rw [complete_of_suspended hs]
    refine ⟨fun op hop => (by cases hop), fun _ => rfl, hsubmitted, hcompleted, fun p hp => ?_⟩
    -- the entry is the only one, so the coroutine is its own
    rw [h.ring handle hs, List.mem_singleton] at hop
    rw [hop]
    rcases List.mem_append.mp hp with hp | hp
    · exact List.mem_append_left _ (h.matched p hp)
    · exact List.mem_append_right _ hp
  | none =>
    rw [complete_of_none hs]
    exact ⟨fun op hop => (by cases hop), fun hne => absurd rfl hne, hsubmitted, hcompleted,
      fun p hp => List.mem_append_left _ (h.matched p hp)⟩

theorem clean_step {s s' : IoListener} {a : Action} (h : Clean s)
    (hstep : Within StartsClean Step s a s') : Clean s' := by
  obtain ⟨hclean, hstep⟩ := hstep
  cases hstep with
  | start => exact clean_start h (hclean rfl)
  | destroy op hwaiting =>
    exact ⟨fun op hop => (by cases hop), fun _ => rfl, h.submitted, h.completed, h.matched⟩
  | complete op status hring => exact clean_complete h hring status

/-- What is left of an earlier operation can meet one that is started. -/
theorem exists_mismatch {s : IoListener} (h : Clean s) (hclean : ¬ StartsClean s .start) :
    ∃ bs s', Run Step s (.start :: bs) s' ∧ ¬ Matches s' := by
  have hlt : ∀ status, (s.started, status) ∉ s.completed :=
    fun status hp => Nat.lt_irrefl _ (h.completed _ hp)
  simp only [StartsClean, forall_const, not_or, not_and, ne_eq, not_not] at hclean
  obtain ⟨hs, hring⟩ := hclean
  cases hstatus : s.callback.status with
  | some status =>
    refine ⟨[], s.start, .cons (.start s) (.nil _), fun hmatches => hlt status ?_⟩
    rw [start_of_status hstatus] at hmatches
    exact hmatches _ (List.mem_append_right _ (List.mem_singleton_self _))
  | none =>
    obtain ⟨op, ops, hops⟩ := List.exists_cons_of_ne_nil (hring hstatus)
    have hstart := start_of_none hs hstatus
    refine ⟨[.complete op 0], s.start.complete op 0,
      .cons (.start s) (.cons (.complete _ op 0 ?_) (.nil _)), fun hmatches => ?_⟩
    · rw [hstart, hops]
      exact List.mem_append_left _ List.mem_cons_self
    · rw [hstart, complete_of_suspended rfl] at hmatches
      have hp := hmatches (s.started, 0)
        (List.mem_append_right _ (List.mem_singleton_self (s.started, (0 : Int))))
      rcases List.mem_append.mp hp with hp | hp
      · exact hlt 0 hp
      · have hop : s.started = op := congrArg Prod.fst (List.mem_singleton.mp hp)
        have hsubmitted := h.submitted op (by rw [hops]; exact List.mem_cons_self)
        rw [← hop] at hsubmitted
        exact Nat.lt_irrefl _ hsubmitted

/-- While operations are started only when nothing is left of earlier ones, every await that returns
returns the result of its own operation; and one that is started otherwise can return another's. -/
theorem completions_match {as : List Action} {s : IoListener}
    (hrun : Run (Within StartsClean Step) new as s) :
    Matches s ∧
      (¬ StartsClean s .start → ∃ bs s', Run Step s (.start :: bs) s' ∧ ¬ Matches s') := by
  have h := hrun.invariant Clean (fun _ _ _ => clean_step) clean_new
  exact ⟨h.matched, exists_mismatch h⟩

/-- Two operations, one after the other. -/
theorem completions_match_two : ∃ s : IoListener,
    Run (Within StartsClean Step) new [.start, .complete 0 5, .start, .complete 1 7] s ∧
    s.finished = [(0, 5), (1, 7)] ∧ Matches s := by
  obtain ⟨s, hrun, hfinished⟩ : ∃ s : IoListener,
      Run (Within StartsClean Step) new [.start, .complete 0 5, .start, .complete 1 7] s ∧
      s.finished = [(0, 5), (1, 7)] :=
    ⟨_, .cons ⟨by decide, .start _⟩ (.cons ⟨by decide, .complete _ 0 5 (by decide)⟩
      (.cons ⟨by decide, .start _⟩ (.cons ⟨by decide, .complete _ 1 7 (by decide)⟩ (.nil _)))), rfl⟩
  exact ⟨s, hrun, hfinished, (completions_match hrun).1⟩

/-- The completion of a destroyed coroutine's recv goes to the next one. -/
theorem not_completions_match : ∃ s : IoListener,
    Run Step new [.start, .destroy 0, .start, .complete 0 5] s ∧
    s.finished = [(1, 5)] ∧ s.completed = [(0, 5)] ∧ ¬ Matches s := by
  refine ⟨_, .cons (.start _) (.cons (.destroy _ 0 (by decide)) (.cons (.start _)
    (.cons (.complete _ 0 5 (by decide)) (.nil _)))), rfl, rfl, fun h => ?_⟩
  exact absurd (h (1, 5) (by decide)) (by decide)

end IoListener

end CppEvent
