import CppEvent.Base.IoListener

/-!
# `server`

`server::accept_connections`, the listener that it awaits, and the coroutines of the handlers that it
detaches. The coroutine frame of a `task<>` goes in one of two ways: the task destroys it, or, once it
is unlinked, it destroys itself at its end. Which of the two it is depends on `m_linked` at the time
the body ends (`accepting_iff`, `reclaimed_iff`).
-/

namespace CppEvent

open Coroutine Transition

/-! ## `task<>` -/

/-- How a body leaves off that is run up to where it is suspended next. -/
inductive Leaving where
  | suspends
  | finishes
  | throws
  deriving DecidableEq

/-- The frame of a `task<>`: whether its promise has `m_linked` and an `m_exception`, whether its body
has ended, and how often it was destroyed. -/
structure TaskFrame where
  linked : Bool
  exception : Bool
  done : Bool
  destroyed : Nat
  deriving DecidableEq

/-- `task<>`: its frame and its own `m_linked`. -/
structure Task where
  frame : TaskFrame
  linked : Bool

namespace TaskFrame

def new : TaskFrame where
  linked := true
  exception := false
  done := false
  destroyed := 0

/-- `final_suspend`. The frame is suspended there while it is linked; if it is not, it goes on to its
end and is gone. -/
def finalSuspend (f : TaskFrame) : TaskFrame :=
  if f.linked then { f with done := true } else { f with done := true, destroyed := f.destroyed + 1 }

/-- The body runs up to where it is suspended or ends. -/
def run (f : TaskFrame) : Leaving → TaskFrame
  | .suspends => f
  | .finishes => f.finalSuspend
  | .throws => { f with exception := true }.finalSuspend

/-- A frame is destroyed once, when its body has ended. -/
def Reclaimed (f : TaskFrame) : Prop := f.destroyed = if f.done then 1 else 0

instance (f : TaskFrame) : Decidable f.Reclaimed :=
  inferInstanceAs (Decidable (_ = _))

@[simp] theorem linked_run (f : TaskFrame) (leaving : Leaving) :
    (f.run leaving).linked = f.linked := by
  cases leaving with
  | suspends => rfl
  | finishes =>
    rw [run, finalSuspend]
    split <;> rfl
  | throws =>
    rw [run, finalSuspend]
    split <;> rfl

theorem reclaimed_run {f : TaskFrame} (hlinked : f.linked = false) (hdone : f.done = false)
    (leaving : Leaving) : (f.run leaving).Reclaimed ↔ f.Reclaimed := by
  cases leaving <;> simp [run, finalSuspend, Reclaimed, hlinked, hdone]

end TaskFrame

namespace Task

def start (first : Leaving) : Task where
  frame := TaskFrame.new.run first
  linked := true

def unlink (t : Task) : Task where
  frame := { t.frame with linked := false }
  linked := false

def destroy (t : Task) : TaskFrame :=
  if t.linked then { t.frame with destroyed := t.frame.destroyed + 1 } else t.frame

theorem reclaimed_start (first : Leaving) :
    (start first).unlink.destroy.Reclaimed ↔ first = .suspends := by
  cases first <;> decide

end Task

/-! ## `accept_connections` -/

/-- `on_connection` of one connection: the descriptor of its socket parameter, and its frame. -/
structure Handler where
  fd : Nat
  frame : TaskFrame

/-- `server`, with the listener of its `m_socket` and the handlers that it has called. -/
structure Server where
  listener : IoListener
  acceptTask : TaskFrame
  handlers : List Handler

namespace Server

/-- A new server, which waits for its first connection. -/
def new : Server where
  listener := IoListener.new.start
  acceptTask := TaskFrame.new
  handlers := []

/-- `accept` returns: the handler is called and detached, and the next round calls `accept`. -/
def acceptReturned (s : Server) (fd : Nat) (first : Leaving) : Server :=
  { s with
    listener := s.listener.start
    handlers := s.handlers ++ [{ fd := fd, frame := (Task.start first).unlink.destroy }] }

/-- `accept` throws, and so does `accept_connections`. -/
def acceptThrew (s : Server) : Server := { s with acceptTask := s.acceptTask.run .throws }

/-- An accept completes: a coroutine that awaits it is resumed. -/
def completed (s : Server) (op : OpId) (status : Int) (first : Leaving) : Server :=
  let s' := { s with listener := s.listener.complete op status }
  match s.listener.callback.suspended with
  | none => s'
  | some _ => if status < 0 then s'.acceptThrew else s'.acceptReturned status.toNat first

/-- The completion of an accept, with how the handler of the connection first leaves off, and a
handler that is resumed. -/
inductive Action where
  | accept (status : Int) (first : Leaving)
  | resume (handler : Nat) (leaving : Leaving)
  deriving DecidableEq

/-- The steps of a server: the kernel completes an entry of the ring, or something resumes a handler
that has not ended. -/
inductive Step : Server → Action → Server → Prop
  | accept (s : Server) (op : OpId) (status : Int) (first : Leaving) (hop : op ∈ s.listener.ring) :
      Step s (.accept status first) (s.completed op status first)
  | resume (s : Server) (before : List Handler) (handler : Handler) (after : List Handler)
      (leaving : Leaving) (hhandlers : s.handlers = before ++ handler :: after)
      (hdone : handler.frame.done = false) :
      Step s (.resume before.length leaving)
        { s with handlers := before ++ { handler with frame := handler.frame.run leaving } :: after }

/-! ### Accepting -/

/-- Exactly one accept is outstanding, and `accept_connections` waits for it. -/
def Accepting (s : Server) : Prop := ∃ op, s.listener.ring = [op] ∧ s.listener.waiting = [op]

def Action.Fails : Action → Prop
  | .accept status _ => status < 0
  | .resume _ _ => False

structure Waits (l : IoListener) (op : OpId) : Prop where
  callback : l.callback = { status := none, suspended := some op }
  ring : l.ring = [op]
  waiting : l.waiting = [op]

structure Quiet (l : IoListener) : Prop where
  callback : l.callback = .new OpId
  ring : l.ring = []
  waiting : l.waiting = []

theorem Quiet.start {l : IoListener} (h : Quiet l) : Waits l.start l.started := by
  rw [IoListener.start_of_none (by rw [h.callback]; rfl) (by rw [h.callback]; rfl)]
  exact ⟨rfl, by simp [h.ring], by simp [h.waiting]⟩

theorem Waits.complete {l : IoListener} {op : OpId} (h : Waits l op) (status : Int) :
    Quiet (l.complete op status) := by
  rw [IoListener.complete_of_suspended (by rw [h.callback])]
  exact ⟨rfl, by simp [h.ring], by simp [h.waiting]⟩

theorem Waits.accepting {s : Server} {op : OpId} (h : Waits s.listener op) : s.Accepting :=
  ⟨op, h.ring, h.waiting⟩

theorem Quiet.not_accepting {s : Server} (h : Quiet s.listener) : ¬ s.Accepting := by
  rintro ⟨op, hring, -⟩
  rw [h.ring] at hring
  cases hring

/-- A server waits for a connection until an accept has failed, and never again. -/
def Listens (as : List Action) (s : Server) : Prop :=
  ((∃ op, Waits s.listener op) ∧ ∀ a ∈ as, ¬ a.Fails) ∨ Quiet s.listener ∧ ∃ a ∈ as, a.Fails

theorem listens_new : Listens [] new :=
  .inl ⟨⟨0, ⟨rfl, rfl, rfl⟩⟩, fun a ha => by cases ha⟩

theorem listens_step {as : List Action} {s s' : Server} {a : Action} (h : Listens as s)
    (hstep : Step s a s') : Listens (as ++ [a]) s' := by
  cases hstep with
  | accept op status first hop =>
    rcases h with ⟨⟨op', hwaits⟩, hfails⟩ | ⟨hquiet, -⟩
    · obtain rfl : op = op' := by
        rw [hwaits.ring] at hop
        exact List.mem_singleton.mp hop
      have hquiet := hwaits.complete status
      rw [completed, hwaits.callback]
      by_cases hneg : status < 0
      · refine .inr ⟨?_, _, List.mem_append_right _ (List.mem_singleton_self _), hneg⟩
        rw [if_pos hneg]
        exact hquiet
      · refine .inl ⟨?_, fun a ha => ?_⟩
        · rw [if_neg hneg]
          exact ⟨_, hquiet.start⟩
        · rcases List.mem_append.mp ha with ha | ha
          · exact hfails a ha
          · rw [List.mem_singleton.mp ha]
            exact hneg
    · rw [hquiet.ring] at hop
      cases hop
  | resume before handler after leaving hhandlers hdone =>
    rcases h with ⟨hwaits, hfails⟩ | ⟨hquiet, a, ha, hneg⟩
    · refine .inl ⟨hwaits, fun a ha => ?_⟩
      rcases List.mem_append.mp ha with ha | ha
      · exact hfails a ha
      · rw [List.mem_singleton.mp ha]
        exact id
    · exact .inr ⟨hquiet, a, List.mem_append_left _ ha, hneg⟩

/-- The server has exactly one accept outstanding as long as no accept has failed, and no longer. -/
theorem accepting_iff {as : List Action} {s : Server} (hrun : Run Step new as s) :
    s.Accepting ↔ ∀ a ∈ as, ¬ a.Fails := by
  rcases hrun.trace_invariant Listens (fun _ _ _ _ => listens_step) listens_new with
    ⟨⟨op, hwaits⟩, hfails⟩ | ⟨hquiet, a, ha, hneg⟩
  · exact iff_of_true hwaits.accepting hfails
  · exact iff_of_false hquiet.not_accepting fun hfails => hfails a ha hneg

/-- Two connections, of which the first has been served. -/
theorem accepting_iff_two : ∃ s : Server,
    Run Step new [.accept 5 .suspends, .resume 0 .finishes, .accept 6 .throws] s ∧ s.Accepting :=
  let hrun := .cons (.accept new 0 5 .suspends (by decide)) (.cons (.resume _ [] _ [] .finishes rfl rfl)
    (.cons (.accept _ 1 6 .throws (by decide)) (.nil _)))
  ⟨_, hrun, (accepting_iff hrun).mpr (by simp [Action.Fails])⟩

/-- A connection that is gone again when it is accepted (`ECONNABORTED`) leaves the server deaf. -/
theorem not_accepting_aborted :
    ¬ ∀ (as : List Action) (s : Server), Run Step new as s → s.Accepting := by
  intro hall
  obtain ⟨op, hring, -⟩ := hall [.accept (-103) .suspends] _
    (.cons (.accept new 0 (-103) .suspends (by decide)) (.nil _))
  cases hring

/-! ### Reclaiming -/

/-- The frames that were not destroyed are those of handlers that have not ended, and the others were
destroyed once. -/
def Reclaimed (s : Server) : Prop := ∀ h ∈ s.handlers, h.frame.Reclaimed

/-- A handler that ends before it is first suspended. -/
def Action.EndsAtOnce : Action → Prop
  | .accept status first => 0 ≤ status ∧ first ≠ .suspends
  | .resume _ _ => False

/-- Every handler is unlinked, and all are reclaimed unless one ended at once. -/
structure Detached (as : List Action) (s : Server) : Prop where
  listens : Listens as s
  unlinked : ∀ h ∈ s.handlers, h.frame.linked = false
  reclaimed : s.Reclaimed ↔ ∀ a ∈ as, ¬ a.EndsAtOnce

theorem detached_step {as : List Action} {s s' : Server} {a : Action} (h : Detached as s)
    (hstep : Step s a s') : Detached (as ++ [a]) s' := by
  have hlistens := listens_step h.listens hstep
  cases hstep with
  | accept op status first hop =>
    have hsuspended : ∃ op, s.listener.callback.suspended = some op := by
      rcases h.listens with ⟨⟨op', hwaits⟩, -⟩ | ⟨hquiet, -⟩
      · exact ⟨op', by rw [hwaits.callback]⟩
      · rw [hquiet.ring] at hop
        cases hop
    obtain ⟨op', hsuspended⟩ := hsuspended
    have hlast : (∀ a ∈ as ++ [.accept status first], ¬ a.EndsAtOnce) ↔
        (∀ a ∈ as, ¬ a.EndsAtOnce) ∧ ¬ (0 ≤ status ∧ first ≠ .suspends) := by
      rw [List.forall_mem_append, List.forall_mem_singleton]
      exact Iff.rfl
    refine ⟨hlistens, ?_, ?_⟩
    · rw [completed, hsuspended]
      dsimp only
      split
      · exact h.unlinked
      · rw [acceptReturned, List.forall_mem_append, List.forall_mem_singleton]
        exact ⟨h.unlinked, rfl⟩
    · rw [hlast, ← h.reclaimed, completed, hsuspended]
      dsimp only
      by_cases hneg : status < 0
      · rw [if_pos hneg]
        exact (and_iff_left (fun hends => by omega)).symm
      · rw [if_neg hneg, Reclaimed, acceptReturned, List.forall_mem_append, List.forall_mem_singleton,
          Task.reclaimed_start]
        refine and_congr_right fun _ => ⟨fun hfirst hends => hends.2 hfirst, fun hends => ?_⟩
        by_contra hfirst
        exact hends ⟨by omega, hfirst⟩
  | resume before handler after leaving hhandlers hdone =>
    have hunlinked := h.unlinked
    have hreclaimed := h.reclaimed
    rw [hhandlers, List.forall_mem_append, List.forall_mem_cons] at hunlinked
    rw [Reclaimed, hhandlers, List.forall_mem_append, List.forall_mem_cons] at hreclaimed
    refine ⟨hlistens, ?_, ?_⟩
    · rw [List.forall_mem_append, List.forall_mem_cons]
      exact ⟨hunlinked.1, by rw [TaskFrame.linked_run]; exact hunlinked.2.1, hunlinked.2.2⟩
    · rw [Reclaimed, List.forall_mem_append, List.forall_mem_cons,
        TaskFrame.reclaimed_run hunlinked.2.1 hdone, hreclaimed, List.forall_mem_append,
        List.forall_mem_singleton]
      exact (and_iff_left id).symm

/-- The frame of every handler is destroyed once, when the handler has ended, as long as no handler has
ended before it was first suspended, and no longer. -/
theorem reclaimed_iff {as : List Action} {s : Server} (hrun : Run Step new as s) :
    s.Reclaimed ↔ ∀ a ∈ as, ¬ a.EndsAtOnce :=
  (hrun.trace_invariant Detached (fun _ _ _ _ => detached_step)
    ⟨listens_new, fun h hh => (by cases hh), iff_of_true (fun h hh => by cases hh)
      (fun a ha => by cases ha)⟩).reclaimed

/-- A handler that finishes when it is resumed, and one that is still suspended. -/
theorem reclaimed_iff_two : ∃ s : Server,
    Run Step new [.accept 5 .suspends, .accept 6 .suspends, .resume 0 .finishes] s ∧ s.Reclaimed :=
  let hrun := .cons (.accept new 0 5 .suspends (by decide)) (.cons (.accept _ 1 6 .suspends (by decide))
    (.cons (.resume _ [] _ [_] .finishes rfl rfl) (.nil _)))
  ⟨_, hrun, (reclaimed_iff hrun).mpr (by simp [Action.EndsAtOnce])⟩

/-- A handler that throws before it awaits anything: `unlink` comes too late for its frame. -/
theorem not_reclaimed_throws :
    ¬ ∀ (as : List Action) (s : Server), Run Step new as s → s.Reclaimed := by
  intro hall
  have h := hall [.accept 5 .throws] _ (.cons (.accept new 0 5 .throws (by decide)) (.nil _))
    { fd := 5, frame := (Task.start .throws).unlink.destroy } (List.mem_singleton_self _)
  exact absurd h (by decide)

end Server

end CppEvent
