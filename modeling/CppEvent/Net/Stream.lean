import CppEvent.Library.Relational
import CppEvent.Net.Socket

/-!
# The stream behind a socket

What the reader of a socket can tell of the completions of its recvs is a stream: bytes, failures
between them, and perhaps an end (`Stream`). On it a read is a loop over single arrivals. The reads of
`socket.cpp`, which go by buffers and by segments of any size, do the same whatever the kernel
delivers (`reads_refine`).
-/

namespace CppEvent

open Coroutine

/-- What comes next: a byte, or the failure of the recv that would have brought it. -/
inductive Arrival where
  | byte (b : Byte)
  | failed (errnum : Nat)
  deriving DecidableEq, Repr

/-- What is to come, and whether the peer closes behind it. -/
structure Stream where
  arrivals : List Arrival
  closes : Bool
  deriving DecidableEq, Repr

namespace Stream

def prepend (bs : Bytes) (st : Stream) : Stream :=
  { st with arrivals := bs.map .byte ++ st.arrivals }

/-- What the completions carry. Behind a `closed` there is nothing. -/
def ofRecvs : List RecvCompletion → Stream
  | [] => ⟨[], false⟩
  | .data segment :: rest => (ofRecvs rest).prepend segment.bytes
  | .closed :: _ => ⟨[], true⟩
  | .failed errnum _ :: rest =>
      { ofRecvs rest with arrivals := .failed errnum :: (ofRecvs rest).arrivals }

/-- The bytes up to a failure or the end. -/
def leading : List Arrival → Bytes
  | .byte b :: rest => b :: leading rest
  | _ => []

@[simp] theorem prepend_nil (st : Stream) : st.prepend [] = st := rfl

theorem leading_prepend (bs : Bytes) (st : Stream) :
    leading (st.prepend bs).arrivals = bs ++ leading st.arrivals := by
  induction bs with
  | nil => rfl
  | cons b bs ih => exact congrArg (b :: ·) ih

theorem leading_ofRecvs (recvs : List RecvCompletion) :
    leading (ofRecvs recvs).arrivals = Input.carried recvs := by
  induction recvs with
  | nil => rfl
  | cons c recvs ih =>
    cases c with
    | data segment => rw [ofRecvs, leading_prepend, ih, Input.carried]
    | closed => rfl
    | failed errnum pos => rfl

/-- All bytes, also those behind failures. -/
def bytes : List Arrival → Bytes
  | [] => []
  | .byte b :: rest => b :: bytes rest
  | .failed _ :: rest => bytes rest

theorem bytes_prepend (bs : Bytes) (st : Stream) :
    bytes (st.prepend bs).arrivals = bs ++ bytes st.arrivals := by
  induction bs with
  | nil => rfl
  | cons b bs ih => exact congrArg (b :: ·) ih

theorem bytes_ofRecvs (recvs : List RecvCompletion) :
    bytes (ofRecvs recvs).arrivals = Input.arriving recvs := by
  induction recvs with
  | nil => rfl
  | cons c recvs ih =>
    cases c with
    | data segment => rw [ofRecvs, bytes_prepend, ih, Input.arriving]
    | closed => rfl
    | failed errnum pos => exact ih

/-! ## Reading arrival by arrival -/

/-- A read of `size` bytes that has `got` so far: how it leaves off, with an exception throwing what it
has got, and what it leaves to come. -/
def consumeFrom (name : String) (size : Nat) (fully closes : Bool) (got : Bytes) :
    List Arrival → Outcome (Bytes × Exn) Bytes × List Arrival
  | .byte b :: rest =>
      if size ≤ got.length then (.returned got, .byte b :: rest)
      else consumeFrom name size fully closes (got ++ [b]) rest
  | .failed errnum :: rest =>
      if size ≤ got.length then (.returned got, .failed errnum :: rest)
      else (.threw (got, .systemError (name ++ " failed: ") errnum), rest)
  | [] =>
      if size ≤ got.length then (.returned got, [])
      else if !closes then (.suspended, [])
      else if fully then (.threw (got, .runtimeError (name ++ " failed: socket closed")), [])
      else (.returned got, [])

/-- What is left to do of a read, or of a skip, of `size` bytes. -/
def consumeStoring (name : String) (size : Nat) (fully : Bool) (got : Bytes) :
    Coro Stream (Bytes × Exn) Bytes := ⟨fun st =>
  let r := consumeFrom name size fully st.closes got st.arrivals
  (r.1, { st with arrivals := r.2 })⟩

def consume (name : String) (size : Nat) (fully : Bool) : Coro Stream Exn Bytes :=
  Coro.mapError Prod.snd (consumeStoring name size fully [])

def readStoring (size : Int) (fully : Bool) : Coro Stream (Bytes × Exn) Bytes :=
  if size < 0 then Coro.fail ([], .lengthError) else consumeStoring "socket read" size.toNat fully []

def readIntoStoring (size : Int) (fully : Bool) : Coro Stream (Bytes × Exn) Bytes :=
  if size < 0 then Coro.stuck else consumeStoring "socket read" size.toNat fully []

def read (size : Int) (fully : Bool) : Coro Stream Exn Bytes :=
  if size < 0 then Coro.fail .lengthError else consume "socket read" size.toNat fully

def readInto (size : Int) (fully : Bool) : Coro Stream Exn Bytes :=
  if size < 0 then Coro.stuck else consume "socket read" size.toNat fully

def skip (size : Int) (fully : Bool) : Coro Stream Exn Int :=
  if size < 0 then Coro.stuck
  else do
    let skipped ← consume "socket skip" size.toNat fully
    pure (skipped.length : Int)

/-- The next byte, or `-1` at the end of the stream. -/
def readC (fully : Bool) : Coro Stream Exn Int := ⟨fun st =>
  match st.arrivals with
  | .byte b :: rest => (.returned (b.toNat : Int), { st with arrivals := rest })
  | .failed errnum :: rest =>
      (.threw (.systemError "socket read_c failed: " errnum), { st with arrivals := rest })
  | [] =>
      if !st.closes then (.suspended, st)
      else if fully then (.threw (.runtimeError "socket read_c failed: socket closed"), st)
      else (.returned (-1), st)⟩

variable {name : String} {size : Nat} {fully closes : Bool}

theorem consumeFrom_full {got : Bytes} (h : size ≤ got.length) (arrivals : List Arrival) :
    consumeFrom name size fully closes got arrivals = (.returned got, arrivals) := by
  rcases arrivals with _ | ⟨_ | _, _⟩ <;> simp only [consumeFrom, if_pos h]

theorem consumeFrom_bytes (bs got : Bytes) (arrivals : List Arrival) :
    consumeFrom name size fully closes got (bs.map .byte ++ arrivals) =
      consumeFrom name size fully closes (got ++ bs.take (size - got.length))
        ((bs.drop (size - got.length)).map .byte ++ arrivals) := by
  induction bs generalizing got with
  | nil => simp
  | cons b bs ih =>
    by_cases hfull : size ≤ got.length
    · simp [Nat.sub_eq_zero_of_le hfull]
    · have hsub : size - got.length = (size - (got ++ [b]).length) + 1 := by
        rw [List.length_append, List.length_singleton]
        omega
      rw [List.map_cons, List.cons_append, consumeFrom, if_neg hfull, ih, hsub, List.take_succ_cons,
        List.drop_succ_cons, List.append_assoc, List.singleton_append]

theorem consumeStoring_full {got : Bytes} (h : size ≤ got.length) (st : Stream) :
    (consumeStoring name size fully got).run st = (.returned got, st) := by
  rw [consumeStoring]
  dsimp only
  rw [consumeFrom_full h]

theorem consumeStoring_prepend (bs got : Bytes) (st : Stream) :
    (consumeStoring name size fully got).run (st.prepend bs) =
      (consumeStoring name size fully (got ++ bs.take (size - got.length))).run
        (st.prepend (bs.drop (size - got.length))) := by
  simp only [consumeStoring, prepend]
  rw [consumeFrom_bytes]

end Stream

namespace Input

/-- What is to come for a reader: what is buffered, then what the recvs bring. -/
def stream (s : Input) : Stream := (Stream.ofRecvs s.recvs).prepend s.buffer.unread

theorem pending_eq_leading (s : Input) : s.pending = Stream.leading s.stream.arrivals := by
  rw [stream, Stream.leading_prepend, Stream.leading_ofRecvs, pending]

theorem awaited_eq_bytes (s : Input) : s.awaited = Stream.bytes s.stream.arrivals := by
  rw [stream, Stream.bytes_prepend, Stream.bytes_ofRecvs, awaited]

theorem stream_of_drained {s : Input} (h : s.buffer.unread = []) :
    s.stream = Stream.ofRecvs s.recvs := by
  rw [stream, h, Stream.prepend_nil]

@[simp] theorem stream_offer (s : Input) : s.offer.stream = s.stream := rfl

/-- What a recv brings a reader whose buffer is drained, by the completion that comes next. -/
theorem recvIncoming_stream {s : Input} (h : s.buffer.unread = []) :
    (s.recvs = [] ∧ s.stream = ⟨[], false⟩ ∧ ∃ s', recvIncoming.run s = (.suspended, s') ∧
      s'.stream = s.stream) ∨
    (∃ segment s', recvIncoming.run s = (.returned (segment.bytes.length : Int), s') ∧
      s'.buffer.unread = segment.bytes ∧ s.recvs = .data segment :: s'.recvs ∧
      s'.stream = s.stream) ∨
    (s.stream = ⟨[], true⟩ ∧ ∃ s', recvIncoming.run s = (.returned 0, s') ∧
      s'.buffer.unread = [] ∧ s'.stream = s.stream) ∨
    ∃ errnum rest s', 0 < errnum ∧ s.stream.arrivals = .failed errnum :: rest ∧
      recvIncoming.run s = (.returned (-(errnum : Int)), s') ∧
      s'.stream = { s.stream with arrivals := rest } := by
  rw [stream_of_drained h]
  rcases hr : s.recvs with _ | ⟨segment | _ | ⟨errnum, hpos⟩, rest⟩
  · refine .inl ⟨rfl, rfl, { s.offer with inFlight := s.inFlight + 1 },
      by simp only [recvIncoming, hr], ?_⟩
    exact (stream_of_drained h).trans (congrArg Stream.ofRecvs hr)
  · obtain ⟨s', hrun, hu, hr', -⟩ := recvIncoming_data hr h
    refine .inr (.inl ⟨segment, s', hrun, hu, by rw [hr'], ?_⟩)
    rw [stream, hu, hr', Stream.ofRecvs]
  · refine .inr (.inr (.inl ⟨rfl, s.offer, by simp only [recvIncoming, hr], h, ?_⟩))
    exact (stream_of_drained h).trans (congrArg Stream.ofRecvs hr)
  · refine .inr (.inr (.inr ⟨errnum, (Stream.ofRecvs rest).arrivals, { s.offer with recvs := rest },
      hpos, rfl, by simp only [recvIncoming, hr], ?_⟩))
    exact stream_of_drained h

theorem takeBuffered_stream (s : Input) (size : Nat) : ∃ s',
    (takeBuffered size).run s = (.returned (s.buffer.unread.take size), s') ∧
      s'.buffer.unread = s.buffer.unread.drop size ∧ s'.recvs = s.recvs ∧
      s'.stream = (Stream.ofRecvs s.recvs).prepend (s.buffer.unread.drop size) := by
  obtain ⟨s', hrun, hu, hr, -⟩ := takeBuffered_run s size
  exact ⟨s', hrun, hu, hr, by rw [stream, hu, hr]⟩

/-! ### `read` and `skip` -/

theorem consumeLoop_refines (name : String) (size : Nat) (fully : Bool) (n : Nat) (got : Bytes)
    (s : Input) (hn : s.recvs.length < n) (hdrained : got.length < size → s.buffer.unread = []) :
    let loop := Coro.iterate (fun got => Coro.mapError (Prod.mk got) (consumeRound name size fully got))
      n got
    (loop.run s).1 = ((Stream.consumeStoring name size fully got).run s.stream).1 ∧
      (loop.run s).2.stream = ((Stream.consumeStoring name size fully got).run s.stream).2 := by
  intro loop
  induction n generalizing got s with
  | zero => omega
  | succ n ih =>
    rcases Nat.lt_or_ge got.length size with hlt | hfull
    · have hu := hdrained hlt
      have hless : ¬ size ≤ got.length := by omega
      rcases recvIncoming_stream hu with ⟨-, hst, s₁, hrun, hst₁⟩ |
        ⟨segment, s₁, hrun, hu₁, hr₁, hst₁⟩ | ⟨hst, s₁, hrun, -, hst₁⟩ |
        ⟨errnum, rest, s₁, hpos, hst, hrun, hst₁⟩
      · have hround : (consumeRound name size fully got).run s = (.suspended, s₁) := by
          rw [consumeRound, if_neg (by omega), Coro.bind_suspended _ hrun]
        simp [loop, Coro.iterate_succ, Coro.mapError, hround, Coro.leave, hst₁, hst,
          Stream.consumeStoring, Stream.consumeFrom, hless]
      · -- a segment: its bytes go to the buffer, and as many as are wanted to the reader
        obtain ⟨s₂, htake, hu₂, hr₂, hst₂⟩ := takeBuffered_stream s₁ (size - got.length)
        have hlen := List.length_pos_iff.mpr segment.nonempty
        have hround : (consumeRound name size fully got).run s =
            (.returned (.inl (got ++ s₁.buffer.unread.take (size - got.length))), s₂) := by
          rw [consumeRound, if_neg (by omega), Coro.bind_returned _ hrun, if_neg (by omega),
            if_neg (by omega), Coro.bind_returned _ htake, Coro.run_pure]
        have hspec : (Stream.consumeStoring name size fully got).run s.stream =
            (Stream.consumeStoring name size fully
              (got ++ s₁.buffer.unread.take (size - got.length))).run s₂.stream := by
          rw [hst₂, ← hst₁, stream, Stream.consumeStoring_prepend]
        rw [Coro.iterate_inl (Coro.mapError_returned_iff.mpr hround), hspec]
        refine ih _ s₂ ?_ fun hshort => ?_
        · rw [hr₂]
          rw [hr₁, List.length_cons] at hn
          omega
        · rw [List.length_append, List.length_take] at hshort
          rw [hu₂, List.drop_eq_nil_iff]
          omega
      · have hround : (consumeRound name size fully got).run s =
            (if fully then Coro.fail (.runtimeError (name ++ " failed: socket closed"))
              else pure (.inr got) : Coro Input Exn (Bytes ⊕ Bytes)).run s₁ := by
          rw [consumeRound, if_neg (by omega), Coro.bind_returned _ hrun, if_neg (by omega),
            if_pos rfl]
        cases fully <;> simp [loop, Coro.iterate_succ, Coro.mapError, hround, Coro.leave, hst₁, hst,
          Stream.consumeStoring, Stream.consumeFrom, hless]
      · have hround : (consumeRound name size fully got).run s =
            (.threw (.systemError (name ++ " failed: ") errnum), s₁) := by
          rw [consumeRound, if_neg (by omega), Coro.bind_returned _ hrun, if_pos (by omega),
            Coro.run_fail]
          simp
        simp [loop, Coro.iterate_succ, Coro.mapError, hround, Coro.leave, hst₁, hst,
          Stream.consumeStoring, Stream.consumeFrom, hless]
    · have hround : (consumeRound name size fully got).run s = (.returned (.inr got), s) := by
        rw [consumeRound, if_pos hfull, Coro.run_pure]
      rw [Stream.consumeStoring_full hfull, Coro.iterate_inr (Coro.mapError_returned_iff.mpr hround)]
      exact ⟨rfl, rfl⟩

theorem consumeStoring_refines (name : String) (size : Nat) (fully : Bool) :
    Coro.Refines stream (consumeStoring name size fully)
      (Stream.consumeStoring name size fully []) := by
  intro s
  obtain ⟨s₀, hrun, hu₀, hr₀, hst₀⟩ := takeBuffered_stream s size
  have hloop := consumeLoop_refines name size fully (s₀.recvs.length + 1)
    (s.buffer.unread.take size) s₀ (Nat.lt_succ_self _) (fun hlt => by
      rw [List.length_take] at hlt
      rw [hu₀, List.drop_eq_nil_iff]
      omega)
  have hstart : (Stream.consumeStoring name size fully []).run s.stream =
      (Stream.consumeStoring name size fully (s.buffer.unread.take size)).run s₀.stream := by
    rw [stream, Stream.consumeStoring_prepend, hst₀]
    rfl
  rw [consumeStoring, Coro.bind_returned _ (Coro.mapError_returned_iff.mpr hrun), Coro.run_loop, hstart]
  exact hloop

theorem consume_refines (name : String) (size : Nat) (fully : Bool) :
    Coro.Refines stream (consume name size fully) (Stream.consume name size fully) := by
  rw [← mapError_consumeStoring]
  exact (consumeStoring_refines name size fully).mapError

theorem readStoring_refines (size : Int) (fully : Bool) :
    Coro.Refines stream (readStoring size fully) (Stream.readStoring size fully) :=
  .ite (fun _ => ⟨rfl, rfl⟩) (consumeStoring_refines _ _ _)

theorem readIntoStoring_refines (size : Int) (fully : Bool) :
    Coro.Refines stream (readIntoStoring size fully) (Stream.readIntoStoring size fully) :=
  .ite (fun _ => ⟨rfl, rfl⟩) (consumeStoring_refines _ _ _)

theorem read_refines (size : Int) (fully : Bool) :
    Coro.Refines stream (read size fully) (Stream.read size fully) :=
  .ite (fun _ => ⟨rfl, rfl⟩) (consume_refines _ _ _)

theorem readInto_refines (size : Int) (fully : Bool) :
    Coro.Refines stream (readInto size fully) (Stream.readInto size fully) :=
  .ite (fun _ => ⟨rfl, rfl⟩) (consume_refines _ _ _)

theorem skip_refines (size : Int) (fully : Bool) :
    Coro.Refines stream (skip size fully) (Stream.skip size fully) :=
  .ite (fun _ => ⟨rfl, rfl⟩) ((consume_refines _ _ _).bind fun _ => .pure _)

/-! ### `read_c` -/

theorem bufferReadC_cons {s : Input} {b : Byte} {bs : Bytes} (h : s.buffer.unread = b :: bs) :
    ∃ s', readC.bufferReadC.run s = (.returned (b.toNat : Int), s') ∧
      s'.stream = (Stream.ofRecvs s.recvs).prepend bs := by
  obtain ⟨s', hrun, hu, hr, hst⟩ := takeBuffered_stream s 1
  rw [h] at hrun hst
  exact ⟨s', by rw [readC.bufferReadC, Coro.bind_returned _ hrun]; rfl, hst⟩

theorem bufferReadC_nil {s : Input} (h : s.buffer.unread = []) :
    ∃ s', readC.bufferReadC.run s = (.returned (-1), s') ∧ s'.stream = s.stream := by
  obtain ⟨s', hrun, hu, hr, hst⟩ := takeBuffered_stream s 1
  rw [h] at hrun hst
  exact ⟨s', by rw [readC.bufferReadC, Coro.bind_returned _ hrun]; rfl,
    hst.trans (stream_of_drained h).symm⟩

theorem readC_refines (fully : Bool) :
    Coro.Refines stream (readC fully) (Stream.readC fully) := by
  intro s
  rw [readC, Coro.run_get_bind]
  rcases hu : s.buffer.unread with _ | ⟨b, bs⟩
  · rw [if_pos ((ByteBuffer.available_eq_zero_iff _).mpr hu)]
    rcases recvIncoming_stream hu with ⟨-, hst, s₁, hrun, hst₁⟩ |
      ⟨segment, s₁, hrun, hu₁, hr₁, hst₁⟩ | ⟨hst, s₁, hrun, hu₁, hst₁⟩ |
      ⟨errnum, rest, s₁, hpos, hst, hrun, hst₁⟩
    · rw [Coro.bind_suspended _ hrun]
      simp [hst₁, hst, Stream.readC]
    · obtain ⟨b, bs, hbs⟩ := List.exists_cons_of_ne_nil segment.nonempty
      rw [hbs] at hu₁
      obtain ⟨s₂, htake, hst₂⟩ := bufferReadC_cons hu₁
      have hlen := List.length_pos_iff.mpr segment.nonempty
      rw [Coro.bind_returned _ hrun, if_neg (by omega), if_neg (by omega), htake, hst₂, ← hst₁,
        stream, hu₁]
      exact ⟨rfl, rfl⟩
    · rw [Coro.bind_returned _ hrun, if_neg (by omega)]
      cases fully with
      | true =>
        rw [if_pos ⟨rfl, rfl⟩]
        simp [hst₁, hst, Stream.readC]
      | false =>
        obtain ⟨s₂, htake, hst₂⟩ := bufferReadC_nil hu₁
        rw [if_neg (by simp), htake]
        simp [hst₂, hst₁, hst, Stream.readC]
    · rw [Coro.bind_returned _ hrun, if_pos (by omega), Coro.run_fail]
      simp [hst₁, hst, Stream.readC]
  · obtain ⟨s₁, htake, hst₁⟩ := bufferReadC_cons hu
    rw [if_neg (by rw [ByteBuffer.available_eq_zero_iff, hu]; simp), htake, hst₁, stream, hu]
    exact ⟨rfl, rfl⟩

end Input

/-! ## Writing

What a writer sends does not depend on how much the kernel takes at a time. -/

def ByteBuffer.emptied {N : Nat} (b : ByteBuffer N) : ByteBuffer N :=
  { ByteBuffer.empty N with buffer := b.buffer, length_buffer := b.length_buffer }

theorem ByteBuffer.eq_emptied {N : Nat} {b b' : ByteBuffer N} (hbuffer : b'.buffer = b.buffer)
    (hunread : b'.unread = []) : b' = b.emptied := by
  have havailable := b'.available_eq_zero_iff.mpr hunread
  have hle := b'.start_le
  have hdrained := b'.drained (by unfold ByteBuffer.available at havailable; omega)
  obtain ⟨buffer, start, stop, _, _, _, _⟩ := b'
  obtain rfl : stop = 0 := hdrained
  obtain rfl : start = 0 := Nat.le_zero.mp hle
  obtain rfl : buffer = b.buffer := hbuffer
  rfl

theorem ByteBuffer.buffer_read {N : Nat} (b : ByteBuffer N) (size : Nat) :
    (b.read size).2.buffer = b.buffer := by
  simp only [ByteBuffer.read, ByteBuffer.incrementReadP]
  split <;> rfl

namespace Output

/-- Two writers that hold the same and have sent the same, to kernels that both go on taking what they
are given, in pieces of any size. -/
structure Alike (o o' : Output) : Prop where
  sends : o.SendsSucceed
  sends' : o'.SendsSucceed
  buffer : o.buffer = o'.buffer
  sent : o.sent = o'.sent

theorem sendChunk_exact {s : Output} (h : s.SendsSucceed) (hu : s.buffer.unread ≠ []) :
    ∃ (k : Nat) (s' : Output), sendChunk.run s = (.returned (k : Int), s') ∧ s'.SendsSucceed ∧
      s'.written = s.written ∧ s'.buffer.buffer = s.buffer.buffer ∧
      s'.buffer.available < s.buffer.available := by
  obtain ⟨k, s', hrun, hs, hw, hlt⟩ := sendChunk_run h hu
  obtain ⟨extra, hextra⟩ := h 0
  refine ⟨k, s', hrun, hs, hw, ?_, hlt⟩
  simp only [sendChunk, hextra, Prod.mk.injEq] at hrun
  rw [← hrun.2]
  exact ByteBuffer.buffer_read _ _

theorem flush_exact {s : Output} (h : s.SendsSucceed) : ∃ s', flush.run s = (.returned (), s') ∧
    s'.SendsSucceed ∧ s'.buffer = s.buffer.emptied ∧ s'.sent = s.written := by
  obtain ⟨_, s', hrun, hs, hw, hb, hu⟩ := Coro.loop_returns (fun s => s.buffer.available + 1)
    flushRound
    (fun _ s' => s'.SendsSucceed ∧ s'.written = s.written ∧ s'.buffer.buffer = s.buffer.buffer)
    (fun _ s' => s'.SendsSucceed ∧ s'.written = s.written ∧ s'.buffer.buffer = s.buffer.buffer ∧
      s'.buffer.unread = [])
    (fun _ s' => s'.buffer.available) () s ⟨h, rfl, rfl⟩ (Nat.lt_succ_self _)
    (fun _ s₁ ⟨hs, hw, hb⟩ => by
      by_cases hu : s₁.buffer.unread = []
      · exact .inr ⟨(), s₁, by rw [flushRound, Coro.run_get_bind, if_pos hu, Coro.run_pure],
          hs, hw, hb, hu⟩
      · obtain ⟨k, s₂, hrun, hs₂, hw₂, hb₂, hlt⟩ := sendChunk_exact hs hu
        refine .inl ⟨(), s₂, ?_, ⟨hs₂, hw₂.trans hw, hb₂.trans hb⟩, hlt⟩
        rw [flushRound, Coro.run_get_bind, if_neg hu, Coro.bind_returned _ hrun,
          if_neg (by omega), Coro.run_pure])
  refine ⟨s', hrun, hs, ByteBuffer.eq_emptied hb hu, ?_⟩
  rw [← hw, written, hu, List.append_nil]

theorem flush_respects : Coro.Respects Alike flush := by
  intro o o' h
  obtain ⟨o₁, hrun, hs, hb, hw⟩ := flush_exact h.sends
  obtain ⟨o₁', hrun', hs', hb', hw'⟩ := flush_exact h.sends'
  rw [hrun, hrun']
  refine ⟨rfl, hs, hs', ?_, ?_⟩
  · rw [hb, hb', h.buffer]
  · rw [hw, hw', written, written, h.buffer, h.sent]

theorem bufferWrite_respects (src : Bytes) : Coro.Respects Alike (bufferWrite src) := by
  intro o o' h
  simp only [bufferWrite, h.buffer, true_and]
  exact ⟨h.sends, h.sends', rfl, h.sent⟩

theorem write_respects (src : Bytes) : Coro.Respects Alike (write src) :=
  (bufferWrite_respects src).bind fun _ => .loop (fun _ _ _ => rfl)
    (fun _ => .ite (.pure _) (flush_respects.bind fun _ =>
      (bufferWrite_respects _).bind fun _ => .pure _)) _

end Output

/-! ## Sockets -/

namespace Socket

variable {α ε : Type}

abbrev stream (s : Socket) : Stream := s.input.stream

theorem onInput_refines {t : Coro Input ε α} {u : Coro Stream ε α}
    (h : Coro.Refines Input.stream t u) : Coro.Refines stream (onInput t) u :=
  .focus (fun _ => rfl) (fun _ _ => rfl) h

/-- Whatever the kernel delivers and however it cuts it, the reads of a socket do what they do on the
stream of the bytes one by one: the same value, the same exception, or waiting; and the same is left
to be read. -/
theorem reads_refine :
    (∀ size fully, Coro.Refines stream (read size fully) (Stream.read size fully)) ∧
    (∀ size fully, Coro.Refines stream (readInto size fully) (Stream.readInto size fully)) ∧
    (∀ size fully, Coro.Refines stream (skip size fully) (Stream.skip size fully)) ∧
    (∀ fully, Coro.Refines stream (readC fully) (Stream.readC fully)) :=
  ⟨fun size fully => onInput_refines (Input.read_refines size fully),
    fun size fully => onInput_refines (Input.readInto_refines size fully),
    fun size fully => onInput_refines (Input.skip_refines size fully),
    fun fully => onInput_refines (Input.readC_refines fully)⟩

/-- Two sockets between which the program that uses them cannot tell the difference: the same is to
come, and the same was written. -/
structure Alike (s s' : Socket) : Prop where
  stream : s.stream = s'.stream
  output : s.output.Alike s'.output
  isShutdown : s.isShutdown = s'.isShutdown

theorem Alike.pending_eq {s s' : Socket} (h : s.Alike s') : s.pending = s'.pending := by
  rw [pending, pending, Input.pending_eq_leading, Input.pending_eq_leading]
  exact congrArg (fun st => Stream.leading st.arrivals) h.stream

theorem Alike.awaited_eq {s s' : Socket} (h : s.Alike s') : s.awaited = s'.awaited := by
  rw [awaited, awaited, Input.awaited_eq_bytes, Input.awaited_eq_bytes]
  exact congrArg (fun st => Stream.bytes st.arrivals) h.stream

/-- What refines its counterpart on streams treats alike sockets alike. -/
theorem onInput_respects {t : Coro Input ε α} {u : Coro Stream ε α}
    (h : Coro.Refines Input.stream t u) : Coro.Respects Alike (onInput t) :=
  .focus (fun _ _ hs => hs.stream) (fun _ _ _ _ hi hs => ⟨hi, hs.output, hs.isShutdown⟩) h.respects

theorem onOutput_respects {t : Coro Output Exn α} (h : Coro.Respects Output.Alike t) :
    Coro.Respects Alike (onOutput t) :=
  .focus (fun _ _ hs => hs.output) (fun _ _ _ _ ho hs => ⟨hs.stream, ho, hs.isShutdown⟩) h

theorem read_respects (size : Int) (fully : Bool) : Coro.Respects Alike (read size fully) :=
  onInput_respects (Input.read_refines size fully)

theorem readInto_respects (size : Int) (fully : Bool) : Coro.Respects Alike (readInto size fully) :=
  onInput_respects (Input.readInto_refines size fully)

theorem readStoring_respects (size : Int) (fully : Bool) :
    Coro.Respects Alike (readStoring size fully) :=
  onInput_respects (Input.readStoring_refines size fully)

theorem readIntoStoring_respects (size : Int) (fully : Bool) :
    Coro.Respects Alike (readIntoStoring size fully) :=
  onInput_respects (Input.readIntoStoring_refines size fully)

theorem skip_respects (size : Int) (fully : Bool) : Coro.Respects Alike (skip size fully) :=
  onInput_respects (Input.skip_refines size fully)

theorem write_respects (src : Bytes) : Coro.Respects Alike (write src) :=
  onOutput_respects (Output.write_respects src)

theorem flush_respects : Coro.Respects Alike flush := onOutput_respects Output.flush_respects

theorem shutdown_respects : Coro.Respects Alike shutdown :=
  .modify fun _ _ h => ⟨h.stream, h.output, rfl⟩

/-- New sockets are alike if the recvs of both bring the same and the sends of both succeed. -/
theorem alike_new {recvs recvs' : List RecvCompletion} {sends sends' : Nat → SendCompletion}
    (hrecvs : Stream.ofRecvs recvs = Stream.ofRecvs recvs')
    (hsends : ∀ i, ∃ extra, sends i = .accepted extra)
    (hsends' : ∀ i, ∃ extra, sends' i = .accepted extra) :
    (new recvs sends).Alike (new recvs' sends') where
  stream := by
    rw [stream, stream, Input.stream_of_drained (ByteBuffer.unread_empty _),
      Input.stream_of_drained (ByteBuffer.unread_empty _)]
    exact hrecvs
  output := ⟨hsends, hsends', rfl, rfl⟩
  isShutdown := rfl

end Socket

end CppEvent
