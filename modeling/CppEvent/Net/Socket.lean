import CppEvent.Library.Coroutine
import CppEvent.Library.Lists
import CppEvent.Base.ByteBuffer

/-!
# `socket`

The socket of `socket.cpp` together with what the kernel does to it: the completions its recvs and
sends receive. The two directions are separate parts of the state (`Input`, `Output`); a read
operation is a coroutine on the first, a write operation one on the second, and `Socket` runs each
on its part. A coroutine that needs a completion the kernel does not deliver is suspended.

A completion is taken from the ring only while the coroutine that awaits it is suspended, and every
recv is issued with a drained buffer, so the bytes of the next completion land at the front of the
buffer whichever recv it belongs to; `inFlight` counts the recvs issued and not completed.
-/

namespace CppEvent

open Coroutine

abbrev socketBufferSize : Nat := 8192

/-! ## What the kernel delivers -/

/-- The bytes of one recv completion: at least one, at most the span that was offered. -/
structure Segment where
  bytes : Bytes
  nonempty : bytes ≠ []
  length_le : bytes.length ≤ socketBufferSize

def Segment.single (b : Byte) : Segment where
  bytes := [b]
  nonempty := by simp
  length_le := by simp [socketBufferSize]

theorem Segment.flatMap_single (bs : Bytes) :
    (bs.map Segment.single).flatMap Segment.bytes = bs := by
  rw [List.flatMap_map]
  exact List.flatMap_singleton' bs

def Segment.sizes (cut : List Segment) : List Nat := cut.map fun segment => segment.bytes.length

theorem Segment.sum_sizes (cut : List Segment) :
    (sizes cut).sum = (cut.flatMap Segment.bytes).length := by
  rw [List.length_flatMap]
  rfl

/-- A completion of a recv. `closed` is status `0`, which every later recv gets again; `failed` is
the status `-errnum`. -/
inductive RecvCompletion where
  | data (segment : Segment)
  | closed
  | failed (errnum : Nat) (pos : 0 < errnum)

/-- A completion of a send of a non-empty span: the kernel takes `extra + 1` bytes, or the whole span
if that is shorter; or it fails with `-errnum`; or it never completes. -/
inductive SendCompletion where
  | accepted (extra : Nat)
  | failed (errnum : Nat) (pos : 0 < errnum)
  | stalled

/-- The reading half: `m_in_buffer`, the completions still to come, the recvs in flight, and for each
recv that was issued how much was unread then and the size of the span it was given. -/
structure Input where
  buffer : ByteBuffer socketBufferSize
  recvs : List RecvCompletion
  inFlight : Nat
  offered : List (Nat × Nat)

/-- The writing half: `m_out_buffer`, the completions of the sends to come, and the bytes that the
kernel has taken so far. -/
structure Output where
  buffer : ByteBuffer socketBufferSize
  sends : Nat → SendCompletion
  sent : Bytes

/-! ## Reading -/

namespace Input

/-- `on_recv` of the write chunk. -/
def offer (s : Input) : Input :=
  { s with offered := s.offered ++ [(s.buffer.available, s.buffer.capacity)] }

def recvIncoming : Coro Input Exn Int := ⟨fun s =>
  match s.recvs with
  | [] => (.suspended, { s.offer with inFlight := s.inFlight + 1 })
  | .data segment :: rest =>
      (.returned (segment.bytes.length : Int),
        { s.offer with buffer := (s.buffer.write segment.bytes).2, recvs := rest })
  | .closed :: _ => (.returned 0, s.offer)
  | .failed errnum _ :: rest => (.returned (-(errnum : Int)), { s.offer with recvs := rest })⟩

/-- `m_in_buffer.read(dest, size)`, and `skip_buffer(m_in_buffer, size)` but for the copy. -/
def takeBuffered (size : Nat) : Coro Input Exn Bytes := ⟨fun s =>
  (.returned (s.buffer.read size).1, { s with buffer := (s.buffer.read size).2 })⟩

/-- One round of the loop that the reads and `skip` share, `got` being what it has so far. -/
def consumeRound (name : String) (size : Nat) (fully : Bool) (got : Bytes) :
    Coro Input Exn (Bytes ⊕ Bytes) :=
  if size ≤ got.length then pure (.inr got)
  else do
    let status ← recvIncoming
    if status < 0 then Coro.fail (.systemError (name ++ " failed: ") (0 - status).toNat)
    else if status = 0 then
      if fully then Coro.fail (.runtimeError (name ++ " failed: socket closed"))
      else pure (.inr got)
    else do
      let more ← takeBuffered (size - got.length)
      pure (.inl (got ++ more))

/-- The loop that the reads and `skip` share: every round but the last takes a completion. -/
def consume (name : String) (size : Nat) (fully : Bool) : Coro Input Exn Bytes := do
  let got ← takeBuffered size
  Coro.loop (fun s => s.recvs.length + 1) (consumeRound name size fully) got

/-- `consume`, throwing with its exception what has been stored by then. -/
def consumeStoring (name : String) (size : Nat) (fully : Bool) : Coro Input (Bytes × Exn) Bytes := do
  let got ← Coro.mapError (Prod.mk []) (takeBuffered size)
  Coro.loop (fun s => s.recvs.length + 1)
    (fun got => Coro.mapError (Prod.mk got) (consumeRound name size fully got)) got

/-- `socket::read(void*, size, fully)`; a negative size reaches `std::memcpy`. -/
def readInto (size : Int) (fully : Bool) : Coro Input Exn Bytes :=
  if size < 0 then Coro.stuck else consume "socket read" size.toNat fully

/-- The same for a caller that looks at the memory behind `dest` when it has caught an exception. -/
def readIntoStoring (size : Int) (fully : Bool) : Coro Input (Bytes × Exn) Bytes :=
  if size < 0 then Coro.stuck else consumeStoring "socket read" size.toNat fully

/-- `socket::read(std::string&, size, fully)`; a negative size reaches `std::string::append`. -/
def read (size : Int) (fully : Bool) : Coro Input Exn Bytes :=
  if size < 0 then Coro.fail .lengthError else consume "socket read" size.toNat fully

/-- The same for a caller that looks at `dest` when it has caught an exception. -/
def readStoring (size : Int) (fully : Bool) : Coro Input (Bytes × Exn) Bytes :=
  if size < 0 then Coro.fail ([], .lengthError) else consumeStoring "socket read" size.toNat fully

/-- `socket::skip`; a negative size moves the read position backwards. -/
def skip (size : Int) (fully : Bool) : Coro Input Exn Int :=
  if size < 0 then Coro.stuck
  else do
    let skipped ← consume "socket skip" size.toNat fully
    pure (skipped.length : Int)

def peek : Coro Input Exn Bytes := do
  let s ← Coro.get
  if s.buffer.unread = [] then do
    let status ← recvIncoming
    if status < 0 then Coro.fail (.systemError "socket peek failed: " (0 - status).toNat)
    else do
      let s ← Coro.get
      pure s.buffer.unread
  else pure s.buffer.unread

/-- `socket::seek`, defined up to the end of what is buffered. -/
def seek (offset : Nat) : Coro Input Exn Unit := ⟨fun s =>
  if h : offset ≤ s.buffer.available then
    (.returned (), { s with buffer := s.buffer.incrementReadP offset h })
  else (.undefined, s)⟩

def readC (fully : Bool) : Coro Input Exn Int := do
  let s ← Coro.get
  if s.buffer.available = 0 then do
    let status ← recvIncoming
    if status < 0 then Coro.fail (.systemError "socket read_c failed: " (0 - status).toNat)
    else if status = 0 ∧ fully then
      Coro.fail (.runtimeError "socket read_c failed: socket closed")
    else bufferReadC
  else bufferReadC
where
  /-- `m_in_buffer.read_c()`. -/
  bufferReadC : Coro Input Exn Int := do
    let c ← takeBuffered 1
    match c with
    | [] => pure (-1)
    | b :: _ => pure (b.toNat : Int)

/-! ### The stream behind the buffer -/

/-- The bytes that the recv completions carry up to the first that carries none. -/
def carried : List RecvCompletion → Bytes
  | .data segment :: rest => segment.bytes ++ carried rest
  | _ => []

/-- The bytes that can still be read: the buffered ones, then those to be received. -/
def pending (s : Input) : Bytes := s.buffer.unread ++ carried s.recvs

/-- The bytes that the recv completions carry, also those behind a failure. -/
def arriving : List RecvCompletion → Bytes
  | [] => []
  | .data segment :: rest => segment.bytes ++ arriving rest
  | .closed :: _ => []
  | .failed _ _ :: rest => arriving rest

/-- The bytes that may yet be read, by a reader that goes on after a failure. -/
def awaited (s : Input) : Bytes := s.buffer.unread ++ arriving s.recvs

/-- From `s` to `s'` exactly `bs` was consumed, and what was received for it is what `s'` no longer
has to come. -/
def Consumes (s : Input) (bs : Bytes) (s' : Input) : Prop :=
  s'.inFlight = s.inFlight ∧ ∃ segments : List Segment,
    s.recvs = segments.map .data ++ s'.recvs ∧
      s.buffer.unread ++ segments.flatMap Segment.bytes = bs ++ s'.buffer.unread

theorem carried_map_data (segments : List Segment) (recvs : List RecvCompletion) :
    carried (segments.map .data ++ recvs) = segments.flatMap Segment.bytes ++ carried recvs := by
  induction segments with
  | nil => rfl
  | cons segment segments ih => simp [carried, ih]

theorem carried_data (segments : List Segment) :
    carried (segments.map .data) = segments.flatMap Segment.bytes := by
  rw [← List.append_nil (segments.map _), carried_map_data]
  exact List.append_nil _

theorem length_carried_le (recvs : List RecvCompletion) :
    (carried recvs).length ≤ (arriving recvs).length := by
  induction recvs with
  | nil => exact Nat.le_refl _
  | cons c recvs ih =>
    cases c with
    | data segment =>
      rw [carried, arriving, List.length_append, List.length_append]
      omega
    | closed => exact Nat.le_refl _
    | failed errnum pos => exact Nat.zero_le _

theorem length_pending_le (s : Input) : s.pending.length ≤ s.awaited.length := by
  have := length_carried_le s.recvs
  rw [pending, awaited, List.length_append, List.length_append]
  omega

namespace Consumes

variable {s s' s'' : Input} {bs cs : Bytes}

theorem refl (s : Input) : s.Consumes [] s := ⟨rfl, [], by simp, by simp⟩

theorem trans (h : s.Consumes bs s') (h' : s'.Consumes cs s'') : s.Consumes (bs ++ cs) s'' := by
  obtain ⟨hf, segments, hr, hu⟩ := h
  obtain ⟨hf', segments', hr', hu'⟩ := h'
  refine ⟨hf'.trans hf, segments ++ segments', ?_, ?_⟩
  · rw [hr, hr', List.map_append, List.append_assoc]
  · rw [List.flatMap_append, ← List.append_assoc, hu, List.append_assoc, hu', List.append_assoc]

theorem pending_eq (h : s.Consumes bs s') : s.pending = bs ++ s'.pending := by
  obtain ⟨_, segments, hr, hu⟩ := h
  rw [pending, pending, hr, carried_map_data, ← List.append_assoc, hu, List.append_assoc]

end Consumes

/-! ### What the read operations return -/

theorem recvIncoming_data {s : Input} {segment : Segment} {rest : List RecvCompletion}
    (h : s.recvs = .data segment :: rest) (hu : s.buffer.unread = []) :
    ∃ s', recvIncoming.run s = (.returned (segment.bytes.length : Int), s') ∧
      s'.buffer.unread = segment.bytes ∧ s'.recvs = rest ∧ s.Consumes [] s' := by
  have hw : (s.buffer.write segment.bytes).2.unread = segment.bytes := by
    rw [ByteBuffer.unread_write, ByteBuffer.write_fst, ByteBuffer.capacity_of_unread_nil hu,
      Nat.min_eq_right segment.length_le, hu, List.take_length, List.nil_append]
  refine ⟨{ s.offer with buffer := (s.buffer.write segment.bytes).2, recvs := rest }, ?_, hw, rfl,
    rfl, [segment], ?_, ?_⟩
  · simp [recvIncoming, h]
  · simp [h]
  · simp [hu, hw]

theorem takeBuffered_run (s : Input) (size : Nat) :
    ∃ s', (takeBuffered size).run s = (.returned (s.buffer.unread.take size), s') ∧
      s'.buffer.unread = s.buffer.unread.drop size ∧ s'.recvs = s.recvs ∧
      s.Consumes (s.buffer.unread.take size) s' := by
  refine ⟨{ s with buffer := (s.buffer.read size).2 }, ?_, ByteBuffer.unread_read _ _, rfl, rfl,
    [], rfl, ?_⟩
  · simp [takeBuffered, ByteBuffer.read_fst]
  · simp [ByteBuffer.unread_read]

/-- A read whose bytes are to come returns them, wherever the completions cut them. -/
theorem consume_run (name : String) (fully : Bool) (s : Input) {bs rest : Bytes}
    (h : s.pending = bs ++ rest) :
    ∃ s', (consume name bs.length fully).run s = (.returned bs, s') ∧ s.Consumes bs s' := by
  obtain ⟨s₀, hrun, hu₀, hr₀, hc₀⟩ := takeBuffered_run s bs.length
  rw [consume, Coro.bind_returned _ hrun]
  -- between rounds: `got` has been consumed, and unless it is everything the buffer is drained
  let inv : Bytes → Input → Prop := fun got s' =>
    s.Consumes got s' ∧ (∃ more, bs = got ++ more ∧ (more ≠ [] → s'.buffer.unread = []))
  have hstart : inv (s.buffer.unread.take bs.length) s₀ := by
    refine ⟨hc₀, bs.drop s.buffer.unread.length, ?_, fun hne => ?_⟩
    · exact List.eq_take_append_drop_of_append_eq h
    · rw [hu₀, List.drop_eq_nil_iff]
      have := List.drop_eq_nil_iff.not.mp hne
      omega
  suffices hround : _ by
    obtain ⟨got, s', hloop, rfl, hc⟩ := Coro.loop_returns
      (fun s => s.recvs.length + 1) (consumeRound name bs.length fully) inv
      (fun got s' => got = bs ∧ s.Consumes got s')
      (fun _ s' => s'.recvs.length) _ s₀ hstart (Nat.lt_succ_self _) hround
    exact ⟨s', hloop, hc⟩
  rintro got s' ⟨hc, more, hbs, hdrained⟩
  by_cases hmore : more = []
  · right
    refine ⟨got, s', ?_, ?_, hc⟩
    · simp [consumeRound, hbs, hmore]
    · rw [hbs, hmore, List.append_nil]
  · left
    have hu' := hdrained hmore
    have hpend : more ++ rest = s'.pending := by
      have := hc.pending_eq
      rw [h, hbs, List.append_assoc] at this
      exact List.append_cancel_left this
    obtain ⟨segment, rest', hrecvs⟩ : ∃ segment rest', s'.recvs = .data segment :: rest' := by
      rw [pending, hu', List.nil_append] at hpend
      rcases hr : s'.recvs with _ | ⟨c, rest'⟩
      · simp [hr, carried, hmore] at hpend
      · cases c with
        | data segment => exact ⟨segment, rest', rfl⟩
        | closed => simp [hr, carried, hmore] at hpend
        | failed e he => simp [hr, carried, hmore] at hpend
    obtain ⟨s₁, hrecv, hu₁, hr₁, hc₁⟩ := recvIncoming_data hrecvs hu'
    obtain ⟨s₂, htake, hu₂, hr₂, hc₂⟩ := takeBuffered_run s₁ more.length
    have hpos : 0 < segment.bytes.length := List.length_pos_iff.mpr segment.nonempty
    have hlen : ¬ bs.length ≤ got.length := by
      have := List.length_pos_iff.mpr hmore
      rw [hbs, List.length_append]
      omega
    refine ⟨got ++ s₁.buffer.unread.take more.length, s₂, ?_, ⟨?_, ?_⟩, ?_⟩
    · have hsize : bs.length - got.length = more.length := by rw [hbs, List.length_append]; omega
      rw [consumeRound, if_neg hlen, Coro.bind_returned _ hrecv, if_neg (by omega),
        if_neg (by omega), hsize, Coro.bind_returned _ htake, Coro.run_pure]
    · have := hc.trans (hc₁.trans hc₂)
      rwa [List.nil_append] at this
    · refine ⟨more.drop segment.bytes.length, ?_, fun hne => ?_⟩
      · rw [hbs, hu₁, List.append_assoc, List.append_cancel_left_eq]
        rw [pending, hu', hrecvs, List.nil_append, carried] at hpend
        exact List.eq_take_append_drop_of_append_eq hpend.symm
      · rw [hu₂, hu₁, List.drop_eq_nil_iff]
        have := List.drop_eq_nil_iff.not.mp hne
        omega
    · simp [hr₂, hr₁, hrecvs]

theorem mapError_consumeStoring (name : String) (size : Nat) (fully : Bool) :
    Coro.mapError Prod.snd (consumeStoring name size fully) = consume name size fully := by
  have hsnd {α : Type} (got : Bytes) (t : Coro Input Exn α) :
      Coro.mapError Prod.snd (Coro.mapError (Prod.mk got) t) = t := by
    rw [Coro.mapError_mapError]
    exact Coro.mapError_id t
  rw [consumeStoring, consume, Coro.mapError_bind, hsnd]
  refine congrArg (takeBuffered size >>= ·) (funext fun got => ?_)
  rw [Coro.mapError_loop]
  exact congrArg (Coro.loop _ · got) (funext fun got => hsnd got _)

/-- What was stored before an exception apart, the reads are the same. -/
theorem mapError_readIntoStoring (size : Int) (fully : Bool) :
    Coro.mapError Prod.snd (readIntoStoring size fully) = readInto size fully := by
  rw [readIntoStoring, readInto, Coro.mapError_ite, Coro.mapError_stuck, mapError_consumeStoring]

theorem mapError_readStoring (size : Int) (fully : Bool) :
    Coro.mapError Prod.snd (readStoring size fully) = read size fully := by
  rw [readStoring, read, Coro.mapError_ite, Coro.mapError_fail, mapError_consumeStoring]

theorem read_run (fully : Bool) {s : Input} {bs rest : Bytes} (h : s.pending = bs ++ rest) :
    ∃ s', (read bs.length fully).run s = (.returned bs, s') ∧ s.Consumes bs s' := by
  rw [read, if_neg (by omega), Int.toNat_natCast]
  exact consume_run _ _ s h

theorem readInto_run (fully : Bool) {s : Input} {bs rest : Bytes} (h : s.pending = bs ++ rest) :
    ∃ s', (readInto bs.length fully).run s = (.returned bs, s') ∧ s.Consumes bs s' := by
  rw [readInto, if_neg (by omega), Int.toNat_natCast]
  exact consume_run _ _ s h

theorem skip_run (fully : Bool) {s : Input} {bs rest : Bytes} (h : s.pending = bs ++ rest) :
    ∃ s', (skip bs.length fully).run s = (.returned (bs.length : Int), s') ∧
      s.Consumes bs s' := by
  obtain ⟨s', hrun, hc⟩ := consume_run "socket skip" fully s h
  refine ⟨s', ?_, hc⟩
  rw [skip, if_neg (by omega), Int.toNat_natCast, Coro.bind_returned _ hrun, Coro.run_pure]

/-- Where nothing arrives a read of more than what is buffered takes that and waits. -/
theorem consume_starved (name : String) (fully : Bool) {s : Input} {size : Nat} (h : s.recvs = [])
    (hlt : s.buffer.unread.length < size) :
    ∃ s', (consume name size fully).run s = (.suspended, s') ∧ s'.recvs = [] ∧
      s'.buffer.unread = [] ∧ s'.inFlight = s.inFlight + 1 := by
  obtain ⟨s₀, hrun, hu₀, hr₀, hc₀⟩ := takeBuffered_run s size
  have hrecv : recvIncoming.run s₀ = (.suspended, { s₀.offer with inFlight := s₀.inFlight + 1 }) := by
    simp only [recvIncoming, hr₀, h]
  have hround : (consumeRound name size fully (s.buffer.unread.take size)).run s₀ =
      (.suspended, { s₀.offer with inFlight := s₀.inFlight + 1 }) := by
    rw [consumeRound, if_neg (by rw [List.length_take]; omega), Coro.bind_suspended _ hrecv]
  refine ⟨{ s₀.offer with inFlight := s₀.inFlight + 1 }, ?_, hr₀.trans h, ?_, by rw [← hc₀.1]⟩
  · rw [consume, Coro.bind_returned _ hrun, Coro.run_loop, Coro.iterate_succ, hround]
    rfl
  · change s₀.buffer.unread = []
    rw [hu₀, List.drop_eq_nil_iff]
    omega

theorem recvIncoming_defined : Coro.Defined recvIncoming := by
  intro s
  simp only [recvIncoming]
  split <;> simp

theorem consume_defined (name : String) (size : Nat) (fully : Bool) :
    Coro.Defined (consume name size fully) := by
  have htake : ∀ n, Coro.Defined (takeBuffered n) := fun _ _ => by simp [takeBuffered]
  exact (htake size).bind fun _ => .loop (fun _ => .ite (.pure _) (recvIncoming_defined.bind
    fun _ => .ite (.fail _) (.ite (.ite (.fail _) (.pure _))
      ((htake _).bind fun _ => .pure _)))) _

theorem recvIncoming_returned {s s' : Input} {status : Int} (hu : s.buffer.unread = [])
    (h : recvIncoming.run s = (.returned status, s')) :
    status ≤ 0 ∨ 0 < status ∧ s.Consumes [] s' ∧ s'.buffer.unread.length = status ∧
      s'.recvs.length < s.recvs.length := by
  rcases hr : s.recvs with _ | ⟨segment | _ | ⟨errnum, hpos⟩, rest⟩
  · simp [recvIncoming, hr] at h
  · obtain ⟨s₁, hrun, hu₁, hr₁, hc₁⟩ := recvIncoming_data hr hu
    rw [h] at hrun
    obtain ⟨hstatus, rfl⟩ := Prod.mk.inj hrun
    obtain rfl := Outcome.returned.inj hstatus
    have hpos := List.length_pos_iff.mpr segment.nonempty
    exact .inr ⟨by omega, hc₁, by rw [hu₁], by simp [hr₁]⟩
  · simp only [recvIncoming, hr, Prod.mk.injEq, Outcome.returned.injEq] at h
    exact .inl (by omega)
  · simp only [recvIncoming, hr, Prod.mk.injEq, Outcome.returned.injEq] at h
    exact .inl (by omega)

/-- A round of a full read ends it, goes on with more bytes, or does not return. -/
theorem consumeRound_step (name : String) {size : Nat} {got : Bytes} {s : Input}
    (hdrained : got.length < size → s.buffer.unread = []) :
    (size ≤ got.length ∧ (consumeRound name size true got).run s = (.returned (.inr got), s)) ∨
    (∃ more s', (consumeRound name size true got).run s = (.returned (.inl (got ++ more)), s') ∧
      s.Consumes more s' ∧ s'.recvs.length < s.recvs.length ∧ (got ++ more).length ≤ size ∧
      ((got ++ more).length < size → s'.buffer.unread = [])) ∨
    ∀ r, ((consumeRound name size true got).run s).1 ≠ .returned r := by
  rcases Nat.lt_or_ge got.length size with hlt | hle
  · right
    rw [consumeRound, if_neg (by omega)]
    rcases hrecv : recvIncoming.run s with ⟨status | e | _ | _, s₁⟩
    · rw [Coro.bind_returned _ hrecv]
      rcases recvIncoming_returned (hdrained hlt) hrecv with hst | ⟨hpos, hc₁, hst, hless⟩
      · right
        intro r
        by_cases hneg : status < 0
        · simp [hneg]
        · simp [show status = 0 by omega]
      · left
        obtain ⟨s₂, htake, hu₂, hr₂, hc₂⟩ := takeBuffered_run s₁ (size - got.length)
        refine ⟨_, s₂, ?_, hc₁.trans hc₂, by rw [hr₂]; omega, ?_, fun hshort => ?_⟩
        · rw [if_neg (by omega), if_neg (by omega), Coro.bind_returned _ htake, Coro.run_pure]
          rfl
        · simp only [List.nil_append, List.length_append, List.length_take]
          omega
        · simp only [List.nil_append, List.length_append, List.length_take] at hshort
          rw [hu₂, List.drop_eq_nil_iff]
          omega
    · exact .inr fun r => by rw [Coro.bind_threw _ hrecv]; simp
    · exact .inr fun r => by rw [Coro.bind_suspended _ hrecv]; simp
    · exact .inr fun r => by rw [Coro.bind_undefined _ hrecv]; simp
  · left
    exact ⟨hle, by rw [consumeRound, if_pos hle, Coro.run_pure]⟩

theorem consume_returned {name : String} {s s' : Input} {size : Nat} {bs : Bytes}
    (h : (consume name size true).run s = (.returned bs, s')) :
    bs.length = size ∧ s.Consumes bs s' := by
  obtain ⟨s₀, hrun, hu₀, hr₀, hc₀⟩ := takeBuffered_run s size
  rw [consume, Coro.bind_returned _ hrun, Coro.run_loop] at h
  have hpost := Coro.iterate_spec (consumeRound name size true)
    (fun got s' => s.Consumes got s' ∧ got.length ≤ size ∧
      (got.length < size → s'.buffer.unread = []))
    (fun o s' => ∀ bs, o = .returned bs → bs.length = size ∧ s.Consumes bs s')
    (fun _ s' => s'.recvs.length) ?_ ?_ (s₀.recvs.length + 1)
    (s.buffer.unread.take size) s₀ ⟨hc₀, by rw [List.length_take]; omega, ?_⟩
    (Nat.lt_succ_self _)
  · rw [h] at hpost
    exact hpost bs rfl
  · rintro got s₁ got' ⟨hc, hle, hdrained⟩ hgo
    rcases consumeRound_step name hdrained with ⟨_, hrun⟩ | ⟨more, s₂, hrun, hc₂, hless, hinv⟩ | hno
    · rw [hrun] at hgo
      simp [Coro.leave] at hgo
    · rw [hrun] at hgo ⊢
      obtain rfl : got ++ more = got' := by simpa [Coro.leave] using hgo
      exact ⟨⟨hc.trans hc₂, hinv⟩, hless⟩
    · rcases hr : ((consumeRound name size true got).run s₁).1 with r | _ | _ | _
      · exact absurd hr (hno r)
      all_goals simp [hr, Coro.leave] at hgo
  · rintro got s₁ o ⟨hc, hle, hdrained⟩ hleave bs rfl
    rcases consumeRound_step name hdrained with ⟨hsize, hrun⟩ | ⟨more, s₂, hrun, _⟩ | hno
    · rw [hrun] at hleave ⊢
      obtain rfl : got = bs := by simpa [Coro.leave] using hleave
      exact ⟨by omega, hc⟩
    · rw [hrun] at hleave
      simp [Coro.leave] at hleave
    · rcases hr : ((consumeRound name size true got).run s₁).1 with r | _ | _ | _
      · exact absurd hr (hno r)
      all_goals simp [hr, Coro.leave] at hleave
  · intro hlt
    rw [hu₀, List.drop_eq_nil_iff]
    rw [List.length_take] at hlt
    omega

/-! ### Where the bytes arrive -/

/-- A position in what is to come at which the buffered bytes or those of a completion end. -/
def EndsAt (s : Input) (x : Nat) : Prop :=
  ∃ (segments : List Segment) (rest : List RecvCompletion), s.recvs = segments.map .data ++ rest ∧
    s.buffer.unread.length + (segments.flatMap Segment.bytes).length = x

theorem Consumes.endsAt {s s' : Input} {bs : Bytes} (h : s.Consumes bs s') {x : Nat}
    (hx : s'.EndsAt x) : s.EndsAt (bs.length + x) := by
  obtain ⟨_, segments, hr, hu⟩ := h
  obtain ⟨segments', rest, hr', rfl⟩ := hx
  refine ⟨segments ++ segments', rest, ?_, ?_⟩
  · rw [hr, hr', List.map_append, List.append_assoc]
  · have := congrArg List.length hu
    simp only [List.flatMap_append, List.length_append] at this ⊢
    omega

/-- On a new connection the bytes of the completions end where their sizes add up to. -/
theorem isBoundary_of_endsAt {s : Input} {cut : List Segment} (hu : s.buffer.unread = [])
    (hr : s.recvs = cut.map .data) {x : Nat} (h : s.EndsAt x) : (Segment.sizes cut).IsBoundary x := by
  obtain ⟨segments, rest, hrecvs, rfl⟩ := h
  rw [hr] at hrecvs
  obtain ⟨cut₁, cut₂, rfl, hcut, _⟩ := List.map_eq_append_iff.mp hrecvs
  obtain rfl : cut₁ = segments := List.map_injective_iff.mpr (fun _ _ => RecvCompletion.data.inj) hcut
  refine ⟨cut₁.length, ?_⟩
  rw [Segment.sizes, List.map_append, ← List.length_map, List.take_left, hu, List.length_nil,
    Nat.zero_add]
  exact Segment.sum_sizes cut₁

/-- If nothing ends in the `n` bytes behind those consumed, they are buffered. -/
theorem Consumes.buffered {s s' : Input} {bs : Bytes} (h : s.Consumes bs s') {n : Nat}
    (hn : ∀ x, s.EndsAt x → ¬ (bs.length ≤ x ∧ x < bs.length + n)) :
    n ≤ s'.buffer.unread.length := by
  have := hn _ (h.endsAt ⟨[], s'.recvs, rfl, rfl⟩)
  simp only [List.flatMap_nil, List.length_nil] at this
  omega

/-- Bytes arrive one by one, and only when they are waited for. -/
def Trickles (s : Input) : Prop :=
  s.buffer.unread = [] ∧ ∀ r ∈ s.recvs, ∃ segment, r = .data segment ∧ segment.bytes.length = 1

theorem takeBuffered_trickles {s : Input} {n : Nat} (hle : s.buffer.unread.length ≤ n)
    (hall : ∀ r ∈ s.recvs, ∃ segment, r = .data segment ∧ segment.bytes.length = 1) :
    ∃ bs s', (takeBuffered n).run s = (.returned bs, s') ∧ s'.Trickles := by
  obtain ⟨s', hrun, hu, hr, _⟩ := takeBuffered_run s n
  refine ⟨_, s', hrun, ?_, by rwa [hr]⟩
  rw [hu, List.drop_eq_nil_iff]
  exact hle

theorem consumeRound_trickles (name : String) (size : Nat) (fully : Bool) (got : Bytes) :
    Coro.Preserves Trickles (consumeRound name size fully got) := by
  intro s h
  by_cases hsize : size ≤ got.length
  · rw [consumeRound, if_pos hsize]
    exact h
  · rw [consumeRound, if_neg hsize]
    rcases hr : s.recvs with _ | ⟨c, rest⟩
    · have hrecv : recvIncoming.run s = (.suspended, { s.offer with inFlight := s.inFlight + 1 }) := by
        simp only [recvIncoming, hr]
      rw [Coro.bind_suspended _ hrecv]
      exact h
    · obtain ⟨segment, rfl, hone⟩ := h.2 c (by simp [hr])
      obtain ⟨s₁, hrecv, hu₁, hr₁, _⟩ := recvIncoming_data hr h.1
      obtain ⟨bs, s₂, htake, h₂⟩ := takeBuffered_trickles (s := s₁) (n := size - got.length)
        (by rw [hu₁]; omega) (fun r hr' => h.2 r (by rw [hr, ← hr₁]; simp [hr']))
      rw [Coro.bind_returned _ hrecv, if_neg (by omega), if_neg (by omega),
        Coro.bind_returned _ htake, Coro.run_pure]
      exact h₂

/-- A read leaves nothing behind of what it received. -/
theorem consume_trickles (name : String) (size : Nat) (fully : Bool) :
    Coro.Preserves Trickles (consume name size fully) := by
  intro s h
  obtain ⟨got, s₀, hrun, h₀⟩ := takeBuffered_trickles (s := s) (n := size) (by simp [h.1]) h.2
  rw [consume, Coro.bind_returned _ hrun]
  exact Coro.Preserves.loop (consumeRound_trickles name size fully) got s₀ h₀

theorem readInto_trickles (size : Int) (fully : Bool) :
    Coro.Preserves Trickles (readInto size fully) := .ite .stuck (consume_trickles _ _ _)

theorem read_trickles (size : Int) (fully : Bool) : Coro.Preserves Trickles (read size fully) :=
  .ite (.fail _) (consume_trickles _ _ _)

theorem skip_trickles (size : Int) (fully : Bool) : Coro.Preserves Trickles (skip size fully) :=
  .ite .stuck ((consume_trickles _ _ _).bind fun _ => .pure _)

/-- A peek shows a front of what is to come, and at least one byte of it. -/
theorem peek_run {s : Input} (h : s.pending ≠ []) :
    ∃ s', peek.run s = (.returned s'.buffer.unread, s') ∧ s'.buffer.unread ≠ [] ∧
      s.Consumes [] s' := by
  by_cases hu : s.buffer.unread = []
  · obtain ⟨segment, rest, hrecvs⟩ : ∃ segment rest, s.recvs = .data segment :: rest := by
      rw [pending, hu, List.nil_append] at h
      rcases hr : s.recvs with _ | ⟨_ | _ | _, rest⟩
      · simp [hr, carried] at h
      · exact ⟨_, rest, rfl⟩
      · simp [hr, carried] at h
      · simp [hr, carried] at h
    obtain ⟨s', hrecv, hu', _, hc⟩ := recvIncoming_data hrecvs hu
    refine ⟨s', ?_, hu' ▸ segment.nonempty, hc⟩
    rw [peek, Coro.run_get_bind, if_pos hu, Coro.bind_returned _ hrecv, if_neg (by omega),
      Coro.run_get_bind, Coro.run_pure]
  · refine ⟨s, ?_, hu, Consumes.refl s⟩
    rw [peek, Coro.run_get_bind, if_neg hu, Coro.run_pure]

theorem peek_eof {s s' : Input} {chunk : Bytes} (h : s.pending = [])
    (hrun : peek.run s = (.returned chunk, s')) : chunk = [] := by
  obtain ⟨hu, hcarried⟩ := List.append_eq_nil_iff.mp h
  rw [peek, Coro.run_get_bind, if_pos hu] at hrun
  obtain ⟨status, s₁, hrecv, hrest⟩ := Coro.returned_of_bind hrun
  rcases hr : s.recvs with _ | ⟨segment | _ | ⟨errnum, hpos⟩, rest⟩
  · simp [recvIncoming, hr] at hrecv
  · rw [hr, carried, List.append_eq_nil_iff] at hcarried
    exact absurd hcarried.1 segment.nonempty
  · simp only [recvIncoming, hr, Prod.mk.injEq, Outcome.returned.injEq] at hrecv
    obtain ⟨rfl, rfl⟩ := hrecv
    rw [if_neg (by omega), Coro.run_get_bind] at hrest
    exact (Outcome.returned.inj (Prod.mk.inj hrest).1).symm.trans hu
  · simp only [recvIncoming, hr, Prod.mk.injEq, Outcome.returned.injEq] at hrecv
    obtain ⟨rfl, rfl⟩ := hrecv
    rw [if_pos (by omega)] at hrest
    simp at hrest

theorem seek_run (bs rest : Bytes) {s : Input} (h : s.buffer.unread = bs ++ rest) :
    ∃ s', (seek bs.length).run s = (.returned (), s') ∧ s'.recvs = s.recvs ∧
      s'.buffer.unread = rest ∧ s.Consumes bs s' := by
  have hle : bs.length ≤ s.buffer.available := by
    rw [← ByteBuffer.length_unread, h, List.length_append]
    omega
  have hu : (s.buffer.incrementReadP bs.length hle).unread = rest := by
    rw [ByteBuffer.unread_incrementReadP, h, List.drop_left]
  refine ⟨{ s with buffer := s.buffer.incrementReadP bs.length hle }, ?_, rfl, hu, rfl, [], rfl, ?_⟩
  · simp only [seek, dif_pos hle]
  · simp [h, hu]

end Input

/-! ## Writing -/

namespace Output

/-- `m_out_buffer.write(src, size)`. -/
def bufferWrite (src : Bytes) : Coro Output Exn Nat := ⟨fun s =>
  (.returned (s.buffer.write src).1, { s with buffer := (s.buffer.write src).2 })⟩

/-- `on_send` of the read chunk and `increment_read_p(status)`. -/
def sendChunk : Coro Output Exn Int := ⟨fun s =>
  match s.sends 0 with
  | .accepted extra =>
      let r := s.buffer.read (extra + 1)
      (.returned (r.1.length : Int),
        { buffer := r.2, sends := fun i => s.sends (i + 1), sent := s.sent ++ r.1 })
  | .failed errnum _ => (.returned (-(errnum : Int)), { s with sends := fun i => s.sends (i + 1) })
  | .stalled => (.suspended, s)⟩

def flushRound (_ : Unit) : Coro Output Exn (Unit ⊕ Unit) := do
  let s ← Coro.get
  if s.buffer.unread = [] then pure (.inr ())
  else do
    let status ← sendChunk
    if status < 0 then Coro.fail (.systemError "socket flush failed: " (0 - status).toNat)
    else pure (.inl ())

/-- `socket::flush`; every send but a failed one takes a byte. -/
def flush : Coro Output Exn Unit :=
  Coro.loop (fun s => s.buffer.available + 1) flushRound ()

def writeRound (src : Bytes) : Coro Output Exn (Bytes ⊕ Unit) :=
  if src = [] then pure (.inr ())
  else do
    flush
    let written ← bufferWrite src
    pure (.inl (src.drop written))

/-- `socket::write`; the loop's local state is what is left of the source, and after a flush the
buffer takes at least a byte of it. -/
def write (src : Bytes) : Coro Output Exn Unit := do
  let written ← bufferWrite src
  Coro.loop (fun _ => src.length + 1) writeRound (src.drop written)

/-- Every send of a non-empty span to come takes some of it. -/
def SendsSucceed (s : Output) : Prop := ∀ i, ∃ extra, s.sends i = .accepted extra

/-- All that was written: what the kernel has, then what the buffer holds. -/
def written (s : Output) : Bytes := s.sent ++ s.buffer.unread

theorem sendChunk_run {s : Output} (h : s.SendsSucceed) (hu : s.buffer.unread ≠ []) :
    ∃ (k : Nat) (s' : Output), sendChunk.run s = (.returned (k : Int), s') ∧ s'.SendsSucceed ∧
      s'.written = s.written ∧ s'.buffer.available < s.buffer.available := by
  obtain ⟨extra, hs⟩ := h 0
  let r := s.buffer.read (extra + 1)
  refine ⟨r.1.length, ⟨r.2, fun i => s.sends (i + 1), s.sent ++ r.1⟩, ?_, fun i => h (i + 1),
    ?_, ?_⟩
  · simp only [sendChunk, hs]
    rfl
  · simp [r, written, ByteBuffer.read_fst, ByteBuffer.unread_read]
  · have hpos := List.length_pos_iff.mpr hu
    simp only [r, ← ByteBuffer.length_unread, ByteBuffer.unread_read, List.length_drop]
    omega

theorem flush_run {s : Output} (h : s.SendsSucceed) :
    ∃ s', flush.run s = (.returned (), s') ∧ s'.SendsSucceed ∧ s'.written = s.written ∧
      s'.buffer.unread = [] := by
  obtain ⟨_, s', hrun, hpost⟩ := Coro.loop_returns (fun s => s.buffer.available + 1) flushRound
    (fun _ s' => s'.SendsSucceed ∧ s'.written = s.written)
    (fun _ s' => s'.SendsSucceed ∧ s'.written = s.written ∧ s'.buffer.unread = [])
    (fun _ s' => s'.buffer.available) () s ⟨h, rfl⟩ (Nat.lt_succ_self _) (fun _ s₁ ⟨hs, hw⟩ => by
      by_cases hu : s₁.buffer.unread = []
      · exact .inr ⟨(), s₁, by rw [flushRound, Coro.run_get_bind, if_pos hu, Coro.run_pure],
          hs, hw, hu⟩
      · obtain ⟨k, s₂, hrun, hs₂, hw₂, hlt⟩ := sendChunk_run hs hu
        refine .inl ⟨(), s₂, ?_, ⟨hs₂, hw₂.trans hw⟩, hlt⟩
        rw [flushRound, Coro.run_get_bind, if_neg hu, Coro.bind_returned _ hrun,
          if_neg (by omega), Coro.run_pure])
  exact ⟨s', hrun, hpost⟩

theorem bufferWrite_run {s : Output} (h : s.SendsSucceed) (src : Bytes) :
    ∃ s', (bufferWrite src).run s = (.returned (min s.buffer.capacity src.length), s') ∧
      s'.SendsSucceed ∧ s'.written = s.written ++ src.take (min s.buffer.capacity src.length) := by
  refine ⟨{ s with buffer := (s.buffer.write src).2 }, rfl, h, ?_⟩
  simp only [written, ByteBuffer.unread_write, ByteBuffer.write_fst, List.append_assoc]

/-- While sends succeed a write of any size returns, with exactly its source accepted. -/
theorem write_run {s : Output} (h : s.SendsSucceed) (src : Bytes) :
    ∃ s', (write src).run s = (.returned (), s') ∧ s'.SendsSucceed ∧
      s'.written = s.written ++ src := by
  obtain ⟨s₀, hrun₀, hs₀, hw₀⟩ := bufferWrite_run h src
  rw [write, Coro.bind_returned _ hrun₀]
  obtain ⟨_, s', hrun, hpost⟩ := Coro.loop_returns (fun _ => src.length + 1) writeRound
    (fun left s' => s'.SendsSucceed ∧ s'.written ++ left = s.written ++ src)
    (fun _ s' => s'.SendsSucceed ∧ s'.written = s.written ++ src)
    (fun left _ => left.length) (src.drop (min s.buffer.capacity src.length)) s₀
    ⟨hs₀, by rw [hw₀, List.append_assoc, List.take_append_drop]⟩
    (Nat.lt_succ_of_le (by rw [List.length_drop]; omega)) (fun left s₁ ⟨hs, hw⟩ => by
      by_cases hl : left = []
      · refine .inr ⟨(), s₁, by rw [writeRound, if_pos hl, Coro.run_pure], hs, ?_⟩
        rw [← hw, hl, List.append_nil]
      · obtain ⟨s₂, hrun₂, hs₂, hw₂, hu₂⟩ := flush_run hs
        obtain ⟨s₃, hrun₃, hs₃, hw₃⟩ := bufferWrite_run hs₂ left
        have hpos := List.length_pos_iff.mpr hl
        refine .inl ⟨left.drop (min s₂.buffer.capacity left.length), s₃, ?_, ⟨hs₃, ?_⟩, ?_⟩
        · rw [writeRound, if_neg hl, Coro.bind_returned _ hrun₂, Coro.bind_returned _ hrun₃,
            Coro.run_pure]
        · rw [hw₃, hw₂, List.append_assoc, List.take_append_drop, hw]
        · have hcap : s₂.buffer.capacity = 8192 := ByteBuffer.capacity_of_unread_nil hu₂
          rw [List.length_drop, hcap]
          omega)
  exact ⟨s', hrun, hpost⟩

theorem flush_defined : Coro.Defined flush :=
  Coro.Defined.loop (fun _ => Coro.Defined.get.bind fun _ => .ite (.pure _)
    (Coro.Defined.bind (fun s => by rw [sendChunk]; dsimp only; split <;> simp)
      fun _ => .ite (.fail _) (.pure _))) ()

theorem write_defined (src : Bytes) : Coro.Defined (write src) := by
  have hwrite : ∀ src, Coro.Defined (bufferWrite src) := fun _ _ => by simp [bufferWrite]
  exact (hwrite src).bind fun _ => .loop
    (fun _ => .ite (.pure _) (flush_defined.bind fun _ => (hwrite _).bind fun _ => .pure _)) _

end Output

/-! ## The socket -/

/-- `socket`: both halves, and whether `shutdown` was called. -/
structure Socket where
  input : Input
  output : Output
  isShutdown : Bool

namespace Socket

variable {α ε : Type}

/-- A socket that was just connected, and what the kernel is going to do to it. -/
def new (recvs : List RecvCompletion) (sends : Nat → SendCompletion) : Socket :=
  { input := { buffer := ByteBuffer.empty socketBufferSize, recvs := recvs, inFlight := 0, offered := [] },
    output := { buffer := ByteBuffer.empty socketBufferSize, sends := sends, sent := [] }, isShutdown := false }

def onInput (t : Coro Input ε α) : Coro Socket ε α :=
  Coro.focus input (fun i s => { s with input := i }) t

def onOutput (t : Coro Output Exn α) : Coro Socket Exn α :=
  Coro.focus output (fun o s => { s with output := o }) t

def read (size : Int) (fully : Bool) : Coro Socket Exn Bytes := onInput (Input.read size fully)

def readInto (size : Int) (fully : Bool) : Coro Socket Exn Bytes :=
  onInput (Input.readInto size fully)

def readStoring (size : Int) (fully : Bool) : Coro Socket (Bytes × Exn) Bytes :=
  onInput (Input.readStoring size fully)

def readIntoStoring (size : Int) (fully : Bool) : Coro Socket (Bytes × Exn) Bytes :=
  onInput (Input.readIntoStoring size fully)

def skip (size : Int) (fully : Bool) : Coro Socket Exn Int := onInput (Input.skip size fully)

def readC (fully : Bool) : Coro Socket Exn Int := onInput (Input.readC fully)

def peek : Coro Socket Exn Bytes := onInput Input.peek

def seek (offset : Nat) : Coro Socket Exn Unit := onInput (Input.seek offset)

def write (src : Bytes) : Coro Socket Exn Unit := onOutput (Output.write src)

def flush : Coro Socket Exn Unit := onOutput Output.flush

/-- `socket::shutdown`, taken to succeed. -/
def shutdown : Coro Socket Exn Unit := Coro.modify fun s => { s with isShutdown := true }

/-- From `s` to `s'` exactly `bs` was consumed, and nothing else happened to the socket. -/
def Consumes (s : Socket) (bs : Bytes) (s' : Socket) : Prop :=
  s.input.Consumes bs s'.input ∧ s'.output = s.output ∧ s'.isShutdown = s.isShutdown

abbrev pending (s : Socket) : Bytes := s.input.pending

abbrev awaited (s : Socket) : Bytes := s.input.awaited

namespace Consumes

variable {s s' s'' : Socket} {bs cs : Bytes}

theorem refl (s : Socket) : s.Consumes [] s := ⟨Input.Consumes.refl _, rfl, rfl⟩

theorem trans (h : s.Consumes bs s') (h' : s'.Consumes cs s'') : s.Consumes (bs ++ cs) s'' :=
  ⟨h.1.trans h'.1, h'.2.1.trans h.2.1, h'.2.2.trans h.2.2⟩

theorem pending_eq (h : s.Consumes bs s') : s.pending = bs ++ s'.pending := h.1.pending_eq

theorem rest_eq {rest : Bytes} (h : s.Consumes bs s') (hp : s.pending = bs ++ rest) :
    s'.pending = rest := by
  rw [h.pending_eq] at hp
  exact List.append_cancel_left hp

end Consumes

theorem pending_new (recvs : List RecvCompletion) (sends : Nat → SendCompletion) :
    (new recvs sends).pending = Input.carried recvs := by
  rw [pending, Input.pending, new, ByteBuffer.unread_empty, List.nil_append]

theorem run_onInput {t : Coro Input Exn α} {s : Socket} {i : Input} {o : Outcome Exn α} {bs : Bytes}
    (h : t.run s.input = (o, i)) (hc : s.input.Consumes bs i) :
    ∃ s', (onInput t).run s = (o, s') ∧ s'.input = i ∧ s.Consumes bs s' :=
  ⟨{ s with input := i }, Coro.run_focus h, rfl, hc, rfl, rfl⟩

theorem mapError_readIntoStoring (size : Int) (fully : Bool) :
    Coro.mapError Prod.snd (readIntoStoring size fully) = readInto size fully := by
  rw [readIntoStoring, onInput, Coro.mapError_focus, Input.mapError_readIntoStoring, readInto, onInput]

theorem mapError_readStoring (size : Int) (fully : Bool) :
    Coro.mapError Prod.snd (readStoring size fully) = read size fully := by
  rw [readStoring, onInput, Coro.mapError_focus, Input.mapError_readStoring, read, onInput]

theorem read_run (fully : Bool) {s : Socket} {bs rest : Bytes} (h : s.pending = bs ++ rest) :
    ∃ s', (read bs.length fully).run s = (.returned bs, s') ∧ s.Consumes bs s' := by
  obtain ⟨i, hrun, hc⟩ := Input.read_run fully h
  obtain ⟨s', hrun', _, hc'⟩ := run_onInput hrun hc
  exact ⟨s', hrun', hc'⟩

theorem readInto_run (fully : Bool) {s : Socket} {bs rest : Bytes} (h : s.pending = bs ++ rest) :
    ∃ s', (readInto bs.length fully).run s = (.returned bs, s') ∧ s.Consumes bs s' := by
  obtain ⟨i, hrun, hc⟩ := Input.readInto_run fully h
  obtain ⟨s', hrun', _, hc'⟩ := run_onInput hrun hc
  exact ⟨s', hrun', hc'⟩

theorem skip_run (fully : Bool) {s : Socket} {bs rest : Bytes} (h : s.pending = bs ++ rest) :
    ∃ s', (skip bs.length fully).run s = (.returned (bs.length : Int), s') ∧ s.Consumes bs s' := by
  obtain ⟨i, hrun, hc⟩ := Input.skip_run fully h
  obtain ⟨s', hrun', _, hc'⟩ := run_onInput hrun hc
  exact ⟨s', hrun', hc'⟩

theorem peek_run {s : Socket} (h : s.pending ≠ []) :
    ∃ s', peek.run s = (.returned s'.input.buffer.unread, s') ∧ s'.input.buffer.unread ≠ [] ∧
      s.Consumes [] s' := by
  obtain ⟨i, hrun, hne, hc⟩ := Input.peek_run h
  obtain ⟨s', hrun', rfl, hc'⟩ := run_onInput hrun hc
  exact ⟨s', hrun', hne, hc'⟩

theorem peek_eof {s s' : Socket} {chunk : Bytes} (h : s.pending = [])
    (hrun : peek.run s = (.returned chunk, s')) : chunk = [] :=
  Input.peek_eof h (Prod.ext (Prod.mk.inj hrun).1 rfl)

theorem seek_run (bs rest : Bytes) {s : Socket} (h : s.input.buffer.unread = bs ++ rest) :
    ∃ s', (seek bs.length).run s = (.returned (), s') ∧ s.Consumes bs s' := by
  obtain ⟨i, hrun, _, _, hc⟩ := Input.seek_run bs rest h
  obtain ⟨s', hrun', _, hc'⟩ := run_onInput hrun hc
  exact ⟨s', hrun', hc'⟩

/-! ### Writes leave the reading half alone -/

/-- From `s` to `s'` exactly `bs` was written, the reading half is untouched, and sends go on
succeeding. -/
def Writes (s : Socket) (bs : Bytes) (s' : Socket) : Prop :=
  s'.input = s.input ∧ s'.isShutdown = s.isShutdown ∧ s'.output.SendsSucceed ∧
    s'.output.written = s.output.written ++ bs

theorem Writes.trans {s s' s'' : Socket} {bs cs : Bytes} (h : s.Writes bs s')
    (h' : s'.Writes cs s'') : s.Writes (bs ++ cs) s'' := by
  obtain ⟨hi, hd, _, hw⟩ := h
  obtain ⟨hi', hd', hs', hw'⟩ := h'
  exact ⟨hi'.trans hi, hd'.trans hd, hs', by rw [hw', hw, List.append_assoc]⟩

theorem write_run {s : Socket} (h : s.output.SendsSucceed) (src : Bytes) :
    ∃ s', (write src).run s = (.returned (), s') ∧ s.Writes src s' := by
  obtain ⟨o, hrun, hs, hw⟩ := Output.write_run h src
  exact ⟨{ s with output := o }, by rw [write, onOutput, Coro.run_focus hrun], rfl, rfl, hs, hw⟩

theorem flush_run {s : Socket} (h : s.output.SendsSucceed) :
    ∃ s', flush.run s = (.returned (), s') ∧ s.Writes [] s' ∧ s'.output.buffer.unread = [] := by
  obtain ⟨o, hrun, hs, hw, hu⟩ := Output.flush_run h
  exact ⟨{ s with output := o }, by rw [flush, onOutput, Coro.run_focus hrun],
    ⟨rfl, rfl, hs, by rw [hw, List.append_nil]⟩, hu⟩

end Socket
end CppEvent
