import CppEvent.Base.Event
import CppEvent.Postgres.Sending

/-!
# Calls that share a connection

`query` and `prepare_query` test `m_query_ready` before they send and clear it when they have sent. In
between they are suspended where a `write` finds the buffer full and in every `flush` of a buffer that
is not empty, and other calls run. A call that starts then passes the same test
(`not_overlap_excluded`); one that starts at any other time while a reply is outstanding is turned
away (`overlap_excluded`).
-/

namespace CppEvent

open Coroutine Transition

inductive SendOp where
  | write (src : Bytes)
  | flush
  deriving DecidableEq

namespace SendOp

/-- The calls up to the first await of a send: the buffer, and the calls that are left, of which the
first is the `flush` that awaits. -/
def advance : List SendOp → ByteBuffer socketBufferSize →
    ByteBuffer socketBufferSize × List SendOp
  | [], b => (b, [])
  | write src :: ops, b =>
      let (written, b) := b.write src
      if src.drop written = [] then advance ops b else (b, flush :: write (src.drop written) :: ops)
  | flush :: ops, b => if b.unread = [] then advance ops b else (b, flush :: ops)

/-- What an awaited send does to the buffer. -/
def settle (status : Int) (b : ByteBuffer socketBufferSize) :
    Outcome Exn (ByteBuffer socketBufferSize) :=
  if status < 0 then .threw (.systemError "socket flush failed: " (0 - status).toNat)
  else if h : status.toNat ≤ b.available then .returned (b.incrementReadP status.toNat h)
  else .undefined

/-- The calls as the code makes them. -/
def perform : SendOp → Coro PgConnection Exn Unit
  | write src => PgConnection.onSock (Socket.write src)
  | flush => PgConnection.onSock Socket.flush

def performAll : List SendOp → Coro PgConnection Exn Unit
  | [] => pure ()
  | op :: ops => perform op >>= fun _ => performAll ops

/-- From the one buffer to the other the calls are made by a coroutine that is alone: every send that
it awaits takes a part of the buffer. -/
inductive Alone : List SendOp → ByteBuffer socketBufferSize → ByteBuffer socketBufferSize → Prop
  | finished {ops : List SendOp} {b b' : ByteBuffer socketBufferSize} :
      advance ops b = (b', []) → Alone ops b b'
  | resumed {ops ops₁ : List SendOp} {b b₁ b₂ b' : ByteBuffer socketBufferSize} {status : Int} :
      advance ops b = (b₁, ops₁) → ops₁ ≠ [] → settle status b₁ = .returned b₂ →
      Alone ops₁ b₂ b' → Alone ops b b'

end SendOp

inductive SharingCall where
  | query (q : Bytes)
  | prepareQuery (q : Bytes) (params : PgParams)

namespace SharingCall

def ops : SharingCall → List SendOp
  | query q => [.write (responseHeader 'Q'.toUInt8 (q.length + 1)), .write (q ++ [0]), .flush]
  | prepareQuery q params => [
      .write (responseHeader 'P'.toUInt8 (q.length + 4)), .write [0], .write (q ++ [0]),
      .write [0, 0], .write (responseHeader 'B'.toUInt8 (params.buffer.length + 3 * 2)),
      .write [0], .write [0], .write [0, 0], .write params.buffer, .write [0, 0]]

/-- What the call throws when it is turned away. -/
def notReady : SharingCall → Exn
  | query _ => .runtimeError "pg_connection query_simple: Not query ready"
  | prepareQuery _ _ => .runtimeError "pg_connection query_extended: Not query ready"

end SharingCall

abbrev CallerId := Nat

/-- The writing half of the socket: `m_out_buffer`, the callback of `m_write_listener`, and the number
of its sends in the ring. -/
structure Wire where
  buffer : ByteBuffer socketBufferSize
  callback : EventCallback CallerId
  sending : Nat

namespace Wire

/-- A coroutine makes its calls until it is through or suspended, or leaves with an exception; the
calls that are left. An await can find a status on the callback, but the next one cannot: `found` is 1
at first. -/
def proceed (id : CallerId) : Nat → List SendOp → Wire → Outcome Exn Unit × List SendOp × Wire
  | found, ops, w =>
    let (b, ops) := SendOp.advance ops w.buffer
    if ops = [] then (.returned (), [], { w with buffer := b })
    else match (EventCallback.awaitStatus id).run w.callback, found with
      | (.returned status, cb), found + 1 =>
          match SendOp.settle status b with
          | .returned b => proceed id found ops ⟨b, cb, w.sending + 1⟩
          | .threw e => (.threw e, ops, ⟨b, cb, w.sending + 1⟩)
          | _ => (.undefined, ops, ⟨b, cb, w.sending + 1⟩)
      | (.returned _, cb), 0 => (.undefined, ops, ⟨b, cb, w.sending + 1⟩)
      | (.threw e, cb), _ => (.threw e, ops, ⟨b, cb, w.sending + 1⟩)
      | (.suspended, cb), _ => (.suspended, ops, ⟨b, cb, w.sending + 1⟩)
      | (.undefined, cb), _ => (.undefined, ops, ⟨b, cb, w.sending + 1⟩)

def resume (id : CallerId) (status : Int) (ops : List SendOp) (w : Wire) :
    Outcome Exn Unit × List SendOp × Wire :=
  match SendOp.settle status w.buffer with
  | .returned b => proceed id 1 ops { w with buffer := b }
  | .threw e => (.threw e, ops, w)
  | _ => (.undefined, ops, w)

end Wire

/-- Where a call is. `sending` is suspended in its sends and `left` has left them otherwise, both
behind the test and before the flag is cleared. `cleared` has cleared it: `query` waits for
ReadyForQuery itself, and the caller of `prepare_query` does so in `close_sync`. -/
inductive CallPhase where
  | rejected (e : Exn)
  | sending (ops : List SendOp)
  | left (o : Outcome Exn Unit)
  | cleared
  | finished

/-- A connection and the calls that were made on it. -/
structure Sharing where
  queryReady : Bool
  wire : Wire
  calls : CallerId → Option (SharingCall × CallPhase)

namespace Sharing

def new (ready : Bool) : Sharing where
  queryReady := ready
  wire := ⟨.empty socketBufferSize, .new CallerId, 0⟩
  calls := fun _ => none

def put (s : Sharing) (id : CallerId) (call : SharingCall) (phase : CallPhase) : Sharing :=
  { s with calls := Function.update s.calls id (some (call, phase)) }

def goOn (s : Sharing) (id : CallerId) (call : SharingCall)
    (r : Outcome Exn Unit × List SendOp × Wire) : Sharing :=
  match r with
  | (.returned _, _, w) => { s with wire := w, queryReady := false }.put id call .cleared
  | (.suspended, ops, w) => { s with wire := w }.put id call (.sending ops)
  | (o, _, w) => { s with wire := w }.put id call (.left o)

def start (s : Sharing) (id : CallerId) (call : SharingCall) : Sharing :=
  if ¬ s.queryReady then s.put id call (.rejected call.notReady)
  else s.goOn id call (s.wire.proceed id 1 call.ops)

/-- A send completes. Who is resumed and is not in its sends, awaits a send of `execute` or
`close_sync`. -/
def complete (s : Sharing) (status : Int) : Sharing :=
  let (resumed, cb) := s.wire.callback.deliver status
  let w : Wire := { s.wire with callback := cb, sending := s.wire.sending - 1 }
  match resumed.bind fun id => (s.calls id).map fun c => (id, c) with
  | some (id, call, .sending ops) => s.goOn id call (w.resume id status ops)
  | _ => { s with wire := w }

inductive Action where
  | start (id : CallerId) (call : SharingCall)
  | complete (status : Int)
  | transact (id : CallerId) (w : Wire)
  | ready (id : CallerId)

/-- The steps from one suspension to the next. With `transact` the caller of `prepare_query` executes
what it has prepared; with `ready` the ReadyForQuery comes that a call is owed. -/
inductive Step : Sharing → Action → Sharing → Prop
  | start (s : Sharing) (id : CallerId) (call : SharingCall) (hnew : s.calls id = none) :
      Step s (.start id call) (s.start id call)
  | complete (s : Sharing) (status : Int) (hsending : 0 < s.wire.sending) :
      Step s (.complete status) (s.complete status)
  | transact (s : Sharing) (id : CallerId) (q : Bytes) (params : PgParams) (w : Wire)
      (hcleared : s.calls id = some (.prepareQuery q params, .cleared)) :
      Step s (.transact id w) { s with wire := w }
  | ready (s : Sharing) (id : CallerId) (call : SharingCall)
      (hcleared : s.calls id = some (call, .cleared)) :
      Step s (.ready id) ({ s with queryReady := true }.put id call .finished)

end Sharing

/-! ## The calls of the code -/

namespace PgConnection

open SendOp

variable {c : PgConnection}

theorem bind_pure_unit (t : Coro PgConnection Exn Unit) : (t >>= fun _ => pure ()) = t :=
  Coro.void_unit t

theorem sendQuery_eq (q : Bytes) : sendQuery q = performAll (SharingCall.query q).ops := by
  simp only [SharingCall.ops, performAll, bind_pure_unit, perform]
  rfl

theorem sendPrepare_eq (q : Bytes) (params : PgParams) :
    sendPrepare q params = performAll (SharingCall.prepareQuery q params).ops := by
  simp only [SharingCall.ops, performAll, bind_pure_unit, perform]
  rfl

end PgConnection

/-! ### A call that is alone -/

namespace SendOp

variable {ops : List SendOp} {b b' : ByteBuffer socketBufferSize}

theorem advance_flush_of_nil (h : b.unread = []) (ops : List SendOp) :
    advance (flush :: ops) b = advance ops b := by
  rw [advance, if_pos h]

theorem advance_flush (h : b.unread ≠ []) (ops : List SendOp) :
    advance (flush :: ops) b = (b, flush :: ops) := by
  rw [advance, if_neg h]

theorem advance_write (src : Bytes) (ops : List SendOp) (b : ByteBuffer socketBufferSize) :
    advance (write src :: ops) b = if src.drop (b.write src).1 = [] then advance ops (b.write src).2
      else ((b.write src).2, flush :: write (src.drop (b.write src).1) :: ops) := rfl

theorem Alone.congr {ops' : List SendOp} {b₀ : ByteBuffer socketBufferSize}
    (heq : advance ops' b₀ = advance ops b) (h : Alone ops b b') : Alone ops' b₀ b' := by
  cases h with
  | finished hend => exact .finished (heq.trans hend)
  | resumed hadvance hne hsettle hrest => exact .resumed (heq.trans hadvance) hne hsettle hrest

theorem settle_of_le {n : Nat} (h : n ≤ b.available) :
    settle (n : Int) b = .returned (b.incrementReadP n h) := by
  rw [settle, if_neg (by omega)]
  simp only [Int.toNat_natCast, h, dif_pos]

theorem flush_alone {o : Output} (h : o.SendsSucceed) : ∃ o', Output.flush.run o = (.returned (), o') ∧
    o'.SendsSucceed ∧ ∀ ops b', Alone ops o'.buffer b' → Alone (flush :: ops) o.buffer b' := by
  obtain ⟨_, o', hrun, hpost⟩ := Coro.loop_returns (fun o => o.buffer.available + 1) Output.flushRound
    (fun _ o' => o'.SendsSucceed ∧
      ∀ ops b', Alone (flush :: ops) o'.buffer b' → Alone (flush :: ops) o.buffer b')
    (fun _ o' => o'.SendsSucceed ∧ ∀ ops b', Alone ops o'.buffer b' → Alone (flush :: ops) o.buffer b')
    (fun _ o' => o'.buffer.available) () o ⟨h, fun _ _ h => h⟩ (Nat.lt_succ_self _) (by
      rintro ⟨⟩ o₁ ⟨hs, halone⟩
      by_cases hu : o₁.buffer.unread = []
      · refine .inr ⟨(), o₁, by rw [Output.flushRound, Coro.run_get_bind, if_pos hu, Coro.run_pure],
          hs, fun ops b' h => halone ops b' (h.congr (advance_flush_of_nil hu ops))⟩
      · obtain ⟨extra, hextra⟩ := hs 0
        let o₂ : Output := ⟨(o₁.buffer.read (extra + 1)).2, fun i => o₁.sends (i + 1),
          o₁.sent ++ (o₁.buffer.read (extra + 1)).1⟩
        have hchunk : Output.sendChunk.run o₁ =
            (.returned ((o₁.buffer.read (extra + 1)).1.length : Int), o₂) := by
          simp only [Output.sendChunk, hextra]
          rfl
        have hlt : o₂.buffer.available < o₁.buffer.available := by
          have hpos := List.length_pos_iff.mpr hu
          rw [← ByteBuffer.length_unread, ← ByteBuffer.length_unread, ByteBuffer.unread_read,
            List.length_drop]
          omega
        refine .inl ⟨(), o₂, ?_, ⟨fun i => hs (i + 1), fun ops b' h => halone ops b' ?_⟩, hlt⟩
        · rw [Output.flushRound, Coro.run_get_bind, if_neg hu, Coro.bind_returned _ hchunk,
            if_neg (by omega), Coro.run_pure]
        · exact .resumed (advance_flush hu ops) (by simp)
            (settle_of_le (Nat.min_le_right (extra + 1) o₁.buffer.available)) h)
  exact ⟨o', hrun, hpost⟩

theorem unread_write_ne_nil {src : Bytes} (h : src.drop (b.write src).1 ≠ []) :
    (b.write src).2.unread ≠ [] := by
  intro hu
  rw [ByteBuffer.unread_write, List.append_eq_nil_iff] at hu
  obtain ⟨hb, htake⟩ := hu
  rw [ByteBuffer.write_fst, ByteBuffer.capacity_of_unread_nil hb] at h htake
  rcases List.take_eq_nil_iff.mp htake with hzero | rfl
  · have hsrc : src.length = 0 := by
      rw [socketBufferSize] at hzero
      omega
    exact h (by rw [List.eq_nil_of_length_eq_zero hsrc, List.drop_nil])
  · exact h List.drop_nil

theorem Alone.write {src : Bytes}
    (hall : src.drop (b.write src).1 = [] → Alone ops (b.write src).2 b')
    (hpart : src.drop (b.write src).1 ≠ [] →
      Alone (flush :: .write (src.drop (b.write src).1) :: ops) (b.write src).2 b') :
    Alone (.write src :: ops) b b' := by
  by_cases hdrop : src.drop (b.write src).1 = []
  · exact (hall hdrop).congr (by rw [advance_write, if_pos hdrop])
  · refine (hpart hdrop).congr ?_
    rw [advance_write, if_neg hdrop, advance_flush (unread_write_ne_nil hdrop)]

theorem write_alone {o : Output} (h : o.SendsSucceed) (src : Bytes) :
    ∃ o', (Output.write src).run o = (.returned (), o') ∧ o'.SendsSucceed ∧
      ∀ ops b', Alone ops o'.buffer b' → Alone (write src :: ops) o.buffer b' := by
  obtain ⟨o₀, hrun₀, hs₀, -⟩ := Output.bufferWrite_run h src
  obtain ⟨-, rfl⟩ := Prod.mk.inj hrun₀
  obtain ⟨_, o', hrun, hpost⟩ := Coro.loop_returns (fun _ => src.length + 1) Output.writeRound
    (fun left o' => o'.SendsSucceed ∧ ∀ ops b',
      (left = [] → Alone ops o'.buffer b') →
      (left ≠ [] → Alone (flush :: write left :: ops) o'.buffer b') →
        Alone (write src :: ops) o.buffer b')
    (fun _ o' => o'.SendsSucceed ∧
      ∀ ops b', Alone ops o'.buffer b' → Alone (write src :: ops) o.buffer b')
    (fun left _ => left.length) (src.drop (min o.buffer.capacity src.length)) _
    ⟨hs₀, fun ops b' hall hpart => Alone.write hall hpart⟩
    (Nat.lt_succ_of_le (by rw [List.length_drop]; omega)) (by
      rintro left o₁ ⟨hs, halone⟩
      by_cases hl : left = []
      · exact .inr ⟨(), o₁, by rw [Output.writeRound, if_pos hl, Coro.run_pure], hs,
          fun ops b' h => halone ops b' (fun _ => h) fun hne => absurd hl hne⟩
      · obtain ⟨o₂, hflush, hs₂, halone₂⟩ := flush_alone hs
        have hcap : o₂.buffer.capacity = socketBufferSize := by
          obtain ⟨o₂', hflush', -, -, hu⟩ := Output.flush_run hs
          rw [hflush] at hflush'
          obtain ⟨-, rfl⟩ := Prod.mk.inj hflush'
          exact ByteBuffer.capacity_of_unread_nil hu
        obtain ⟨o₃, hwrite, hs₃, -⟩ := Output.bufferWrite_run hs₂ left
        have hround : (Output.writeRound left).run o₁ =
            (.returned (.inl (left.drop (min o₂.buffer.capacity left.length))), o₃) := by
          rw [Output.writeRound, if_neg hl, Coro.bind_returned _ hflush, Coro.bind_returned _ hwrite,
            Coro.run_pure]
        obtain ⟨-, rfl⟩ := Prod.mk.inj hwrite
        refine .inl ⟨_, _, hround, ⟨hs₃, fun ops b' hall hpart => ?_⟩, ?_⟩
        · exact halone ops b' (fun hnil => absurd hnil hl) fun _ =>
            halone₂ _ b' (Alone.write hall hpart)
        · have hpos := List.length_pos_iff.mpr hl
          rw [List.length_drop, hcap, socketBufferSize]
          omega)
  refine ⟨o', ?_, hpost⟩
  rw [Output.write, Coro.bind_returned _ hrun₀]
  exact hrun

theorem run_onOutput {t : Coro Output Exn Unit} {c : PgConnection} {r : Outcome Exn Unit} {o : Output}
    (h : t.run c.output = (r, o)) :
    (PgConnection.onSock (Socket.onOutput t)).run c = (r, { c with sock.output := o }) := by
  rw [PgConnection.onSock, Socket.onOutput, Coro.run_focus (Coro.run_focus h)]

/-- What the code sends, sent by a call that is alone, goes through the steps of `advance`. -/
theorem performAll_alone {c : PgConnection} (h : c.output.SendsSucceed) (ops : List SendOp) :
    ∃ c', (performAll ops).run c = (.returned (), c') ∧ c'.output.SendsSucceed ∧
      Alone ops c.output.buffer c'.output.buffer := by
  induction ops generalizing c with
  | nil => exact ⟨c, rfl, h, .finished rfl⟩
  | cons op ops ih =>
    obtain ⟨o, hrun, hs, halone⟩ : ∃ o, (perform op).run c =
        (.returned (), { c with sock.output := o }) ∧ o.SendsSucceed ∧
          ∀ ops b', Alone ops o.buffer b' → Alone (op :: ops) c.output.buffer b' := by
      cases op with
      | write src =>
        obtain ⟨o, hrun, hs, halone⟩ := write_alone h src
        exact ⟨o, run_onOutput hrun, hs, halone⟩
      | flush =>
        obtain ⟨o, hrun, hs, halone⟩ := flush_alone h
        exact ⟨o, run_onOutput hrun, hs, halone⟩
    obtain ⟨c', hrun', hs', halone'⟩ := ih (c := { c with sock.output := o }) hs
    exact ⟨c', by rw [performAll, Coro.bind_returned _ hrun, hrun'], hs', halone _ _ halone'⟩

end SendOp

/-! ## Who is behind the test -/

namespace CallPhase

/-- Behind the test, and the flag is not cleared yet. -/
def isOpen : CallPhase → Bool
  | sending _ | left _ => true
  | _ => false

/-- Behind the test, and ReadyForQuery has not come. -/
def isActive : CallPhase → Bool
  | sending _ | left _ | cleared => true
  | _ => false

theorem isActive_of_isOpen {phase : CallPhase} (h : phase.isOpen) : phase.isActive := by
  cases phase with
  | sending ops => rfl
  | left o => rfl
  | _ => cases h

end CallPhase

namespace Sharing

def Open (s : Sharing) (id : CallerId) : Prop := ∃ call phase,
  s.calls id = some (call, phase) ∧ phase.isOpen

def Active (s : Sharing) (id : CallerId) : Prop := ∃ call phase,
  s.calls id = some (call, phase) ∧ phase.isActive

/-- No call starts while another one is behind the test with the flag not cleared, suspended there or
left off there. -/
def Apart (s : Sharing) (a : Action) : Prop :=
  match a with
  | .start _ _ => ∀ id, ¬ s.Open id
  | _ => True

/-- The call throws that the connection is not ready, and writes nothing. -/
def TurnedAway (s : Sharing) (id : CallerId) (call : SharingCall) (s' : Sharing) : Prop :=
  s'.calls id = some (call, .rejected call.notReady) ∧ s'.wire = s.wire

theorem any_calls_iff (s : Sharing) (id : CallerId) (p : CallPhase → Bool) :
    ((s.calls id).any fun c => p c.2) = true ↔
      ∃ call phase, s.calls id = some (call, phase) ∧ p phase := by
  cases s.calls id with
  | none => simp
  | some c => simp [Prod.ext_iff]

instance (s : Sharing) (id : CallerId) : Decidable (s.Open id) :=
  decidable_of_iff _ (s.any_calls_iff id CallPhase.isOpen)

instance (s : Sharing) (id : CallerId) : Decidable (s.Active id) :=
  decidable_of_iff _ (s.any_calls_iff id CallPhase.isActive)

variable {s s' : Sharing} {id j : CallerId} {call : SharingCall} {phase : CallPhase}

theorem calls_put_self (s : Sharing) (id : CallerId) (call : SharingCall) (phase : CallPhase) :
    (s.put id call phase).calls id = some (call, phase) := Function.update_self _ _ _

theorem calls_put_of_ne (s : Sharing) (hne : j ≠ id) (call : SharingCall) (phase : CallPhase) :
    (s.put id call phase).calls j = s.calls j := Function.update_of_ne hne _ _

theorem Open.active (h : s.Open id) : s.Active id := by
  obtain ⟨call, phase, hcalls, hopen⟩ := h
  exact ⟨call, phase, hcalls, CallPhase.isActive_of_isOpen hopen⟩

theorem Active.cleared_or (h : s.Active id) :
    (∃ call, s.calls id = some (call, .cleared)) ∨ s.Open id := by
  obtain ⟨call, phase, hcalls, hactive⟩ := h
  cases phase with
  | sending ops => exact .inr ⟨call, _, hcalls, rfl⟩
  | left o => exact .inr ⟨call, _, hcalls, rfl⟩
  | cleared => exact .inl ⟨call, hcalls⟩
  | _ => cases hactive

/-- At most one call is behind the test, and the flag says whether it has cleared it. -/
structure Exclusive (s : Sharing) : Prop where
  unique : ∀ i j, s.Active i → s.Active j → i = j
  opened : ∀ i, s.Open i → s.queryReady = true
  cleared : ∀ i call, s.calls i = some (call, .cleared) → s.queryReady = false

theorem exclusive_of_none (h : ∀ id, s.calls id = none) : Exclusive s where
  unique := fun i j ⟨call, phase, hcalls, _⟩ => by simp [h] at hcalls
  opened := fun i ⟨call, phase, hcalls, _⟩ => by simp [h] at hcalls
  cleared := fun i call hcalls => by simp [h] at hcalls

theorem Exclusive.congr (h : Exclusive s) (hready : s'.queryReady = s.queryReady)
    (hcalls : s'.calls = s.calls) : Exclusive s' where
  unique := fun i j hi hj => h.unique i j (by rwa [Active, ← hcalls]) (by rwa [Active, ← hcalls])
  opened := fun i hi => hready.trans (h.opened i (by rwa [Open, ← hcalls]))
  cleared := fun i call hi => hready.trans (h.cleared i call (by rwa [← hcalls]))

/-- While no other call is behind the test, a call may be put anywhere that fits the flag. -/
theorem exclusive_put (hothers : ∀ j, j ≠ id → ¬ s.Active j) (call : SharingCall)
    (hopen : phase.isOpen → s.queryReady = true) (hcleared : phase = .cleared → s.queryReady = false) :
    Exclusive (s.put id call phase) := by
  have hself : ∀ j, (s.put id call phase).Active j → j = id := by
    intro j hj
    by_contra hne
    rw [Active, calls_put_of_ne s hne] at hj
    exact hothers j hne hj
  refine ⟨fun i j hi hj => (hself i hi).trans (hself j hj).symm, fun i hi => ?_, fun i call' hi => ?_⟩
  · obtain rfl := hself i hi.active
    obtain ⟨call', phase', hcalls, hopen'⟩ := hi
    rw [calls_put_self] at hcalls
    obtain ⟨rfl, rfl⟩ := Prod.mk.inj (Option.some.inj hcalls)
    exact hopen hopen'
  · obtain rfl := hself i ⟨call', .cleared, hi, rfl⟩
    rw [calls_put_self] at hi
    obtain ⟨rfl, rfl⟩ := Prod.mk.inj (Option.some.inj hi)
    exact hcleared rfl

theorem Exclusive.reject (h : Exclusive s) (id : CallerId) (call : SharingCall) (e : Exn) :
    Exclusive (s.put id call (.rejected e)) := by
  have hof : ∀ j call' phase', (s.put id call (.rejected e)).calls j = some (call', phase') →
      phase'.isActive → s.calls j = some (call', phase') := by
    intro j call' phase' hcalls hactive
    by_cases hne : j = id
    · subst hne
      rw [calls_put_self] at hcalls
      obtain ⟨rfl, rfl⟩ := Prod.mk.inj (Option.some.inj hcalls)
      cases hactive
    · rwa [calls_put_of_ne s hne] at hcalls
  have hactive : ∀ j, (s.put id call (.rejected e)).Active j → s.Active j :=
    fun j ⟨call', phase', hcalls, hphase⟩ => ⟨call', phase', hof j call' phase' hcalls hphase, hphase⟩
  refine ⟨fun i j hi hj => h.unique i j (hactive i hi) (hactive j hj), fun i hi => ?_,
    fun i call' hi => h.cleared i call' (hof i call' _ hi rfl)⟩
  obtain ⟨call', phase', hcalls, hopen⟩ := hi
  exact h.opened i ⟨call', phase', hof i call' phase' hcalls (CallPhase.isActive_of_isOpen hopen),
    hopen⟩

/-- Where a call goes on to: the flag is cleared by the call that has sent everything. -/
theorem goOn_cases (s : Sharing) (id : CallerId) (call : SharingCall)
    (r : Outcome Exn Unit × List SendOp × Wire) : ∃ ready w phase,
    s.goOn id call r = { s with queryReady := ready, wire := w }.put id call phase ∧
      (phase = .cleared ∧ ready = false ∨ phase.isOpen ∧ ready = s.queryReady) := by
  obtain ⟨o, ops, w⟩ := r
  cases o with
  | returned a => exact ⟨false, w, .cleared, rfl, .inl ⟨rfl, rfl⟩⟩
  | suspended => exact ⟨s.queryReady, w, .sending ops, rfl, .inr ⟨rfl, rfl⟩⟩
  | threw e => exact ⟨s.queryReady, w, .left (.threw e), rfl, .inr ⟨rfl, rfl⟩⟩
  | undefined => exact ⟨s.queryReady, w, .left .undefined, rfl, .inr ⟨rfl, rfl⟩⟩

theorem exclusive_goOn (hready : s.queryReady = true) (hothers : ∀ j, j ≠ id → ¬ s.Active j)
    (call : SharingCall) (r : Outcome Exn Unit × List SendOp × Wire) :
    Exclusive (s.goOn id call r) := by
  obtain ⟨ready, w, phase, hgoOn, hphase⟩ := goOn_cases s id call r
  rw [hgoOn]
  refine exclusive_put (s := { s with queryReady := ready, wire := w }) hothers call
    (fun hopen => ?_) fun hcleared => ?_
  · rcases hphase with ⟨rfl, -⟩ | ⟨-, rfl⟩
    · cases hopen
    · exact hready
  · rcases hphase with ⟨-, rfl⟩ | ⟨hopen, -⟩
    · rfl
    · subst hcleared
      cases hopen

/-- A completion resumes a call that is in its sends, or changes no call. -/
theorem complete_cases (s : Sharing) (status : Int) :
    (∃ id call ops r, s.calls id = some (call, .sending ops) ∧
      s.complete status = s.goOn id call r) ∨
    (s.complete status).queryReady = s.queryReady ∧ (s.complete status).calls = s.calls := by
  rw [complete]
  rcases s.wire.callback.deliver status with ⟨resumed, cb⟩
  cases resumed with
  | none => exact .inr ⟨rfl, rfl⟩
  | some id =>
    cases hcalls : s.calls id with
    | none =>
      simp only [Option.bind_some, hcalls, Option.map_none]
      exact .inr ⟨trivial, trivial⟩
    | some c =>
      obtain ⟨call, phase⟩ := c
      simp only [Option.bind_some, hcalls, Option.map_some]
      cases phase with
      | sending ops => exact .inl ⟨id, call, ops, _, hcalls, rfl⟩
      | _ => exact .inr ⟨rfl, rfl⟩

theorem exclusive_step {a : Action} (h : Exclusive s) (hstep : Within Apart Step s a s') :
    Exclusive s' := by
  obtain ⟨hapart, hstep⟩ := hstep
  cases hstep with
  | start id call hnew =>
    rw [start]
    by_cases hready : s.queryReady
    · rw [if_neg (not_not.mpr hready)]
      refine exclusive_goOn hready (fun j _ hj => ?_) call _
      rcases hj.cleared_or with ⟨call', hcleared⟩ | hopen
      · rw [h.cleared j call' hcleared] at hready
        cases hready
      · exact hapart j hopen
    · rw [if_pos hready]
      exact h.reject id call call.notReady
  | complete status hsending =>
    rcases complete_cases s status with ⟨id, call, ops, r, hcalls, hcomplete⟩ | ⟨hready, hcalls⟩
    · rw [hcomplete]
      have hopen : s.Open id := ⟨call, _, hcalls, rfl⟩
      exact exclusive_goOn (h.opened id hopen)
        (fun j hne hj => hne (h.unique j id hj hopen.active)) call r
    · exact h.congr hready hcalls
  | transact id q params w hcleared => exact h.congr rfl rfl
  | ready id call hcleared =>
    exact exclusive_put (s := { s with queryReady := true })
      (fun j hne hj => hne (h.unique j id hj ⟨call, _, hcleared, rfl⟩)) call (fun _ => rfl)
      fun hcleared => by cases hcleared

theorem not_turnedAway (hready : s.queryReady = true) :
    ¬ TurnedAway s id call (s.start id call) := by
  rintro ⟨hcalls, -⟩
  rw [start, if_neg (not_not.mpr hready)] at hcalls
  obtain ⟨ready, w, phase, hgoOn, hphase⟩ := goOn_cases s id call (s.wire.proceed id 1 call.ops)
  rw [hgoOn, calls_put_self] at hcalls
  obtain ⟨-, rfl⟩ := Prod.mk.inj (Option.some.inj hcalls)
  rcases hphase with ⟨hcleared, -⟩ | ⟨hopen, -⟩
  · cases hcleared
  · cases hopen

/-- While calls start only when no other one is between the test and clearing the flag, at most one
call has passed the test and still waits for its ReadyForQuery; and of the calls that start in the
meantime just these are turned away. -/
theorem overlap_excluded {s₀ s : Sharing} (hnone : ∀ id, s₀.calls id = none) {as : List Action}
    (hrun : Run (Within Apart Step) s₀ as s) :
    (∀ i j, s.Active i → s.Active j → i = j) ∧
    ∀ i, s.Active i → ∀ id call s', Step s (.start id call) s' →
      (TurnedAway s id call s' ↔ Apart s (.start id call)) := by
  have h : Exclusive s := hrun.invariant Exclusive (fun _ _ _ => exclusive_step)
    (exclusive_of_none hnone)
  refine ⟨h.unique, fun i hi id call s' hstep => ?_⟩
  cases hstep with
  | start _ _ hnew =>
    constructor
    · intro haway j hopen
      exact not_turnedAway (h.opened j hopen) haway
    · intro hapart
      rcases hi.cleared_or with ⟨call', hcleared⟩ | hopen
      · have hready := h.cleared i call' hcleared
        rw [start, if_pos (by simp [hready])]
        exact ⟨calls_put_self _ _ _ _, rfl⟩
      · exact absurd hopen (hapart i)

/-- A query in its receive loop, and one that starts then. -/
theorem overlap_excluded_two : ∃ s : Sharing,
    Run (Within Apart Step) (new true) [.start 0 (.query (ascii "a")), .complete 7] s ∧
    s.Active 0 ∧ (∀ i j, s.Active i → s.Active j → i = j) ∧
    TurnedAway s 1 (.query (ascii "b")) (s.start 1 (.query (ascii "b"))) := by
  have hnone : ∀ id, (new true).calls id = none := fun _ => rfl
  have hapart : Apart (new true) (.start 0 (.query (ascii "a"))) := by
    rintro id ⟨call, phase, hcalls, -⟩
    cases hcalls
  have hrun : Run (Within Apart Step) (new true) [.start 0 (.query (ascii "a")), .complete 7]
      (((new true).start 0 (.query (ascii "a"))).complete 7) :=
    .cons ⟨hapart, .start _ 0 _ rfl⟩
      (.cons ⟨trivial, .complete _ 7 (by decide +kernel)⟩ (.nil _))
  have hactive : (((new true).start 0 (.query (ascii "a"))).complete 7).Active 0 := by
    decide +kernel
  have hnew : (((new true).start 0 (.query (ascii "a"))).complete 7).calls 1 = none :=
    Option.isNone_iff_eq_none.mp (by decide +kernel)
  obtain ⟨hunique, hexcluded⟩ := overlap_excluded hnone hrun
  refine ⟨_, hrun, hactive, hunique, (hexcluded 0 hactive 1 _ _ (.start _ 1 _ hnew)).mpr ?_⟩
  intro id hopen
  obtain rfl := hunique id 0 hopen.active hactive
  exact absurd hopen (by decide +kernel)

/-- A query that starts while another one is suspended in its flush. -/
theorem not_overlap_excluded : ¬ ∀ as s, Run Step (new true) as s → ∀ i, s.Active i →
    ∀ id call s', Step s (.start id call) s' → TurnedAway s id call s' := by
  intro h
  have hrun : Run Step (new true) [.start 0 (.query (ascii "a"))]
      ((new true).start 0 (.query (ascii "a"))) := .cons (.start _ 0 _ rfl) (.nil _)
  have hactive : ((new true).start 0 (.query (ascii "a"))).Active 0 := by decide +kernel
  have hnew : ((new true).start 0 (.query (ascii "a"))).calls 1 = none :=
    Option.isNone_iff_eq_none.mp (by decide +kernel)
  exact not_turnedAway (by decide +kernel)
    (h _ _ hrun 0 hactive 1 (.query (ascii "b")) _ (.start _ 1 _ hnew))

end Sharing

end CppEvent
