import CppEvent.Base.ByteBuffer
import CppEvent.Library.Transition

/-!
# The accesses of `byte_buffer`

The members of `byte_buffer.hpp` over positions about which nothing is known, with every access to the
array checked (`RawBuffer`). A `ByteBuffer` is such a buffer with its bounds (`ByteBuffer.raw`), and
each operation takes the one to the other: so no access is ever outside, and what comes out is what
went in (`bounded_fifo`).
-/

namespace CppEvent

open Transition

/-- `byte_buffer<N>` as it lies in memory. -/
structure RawBuffer (N : Nat) where
  buffer : Vector Byte N
  start : Int
  stop : Int

namespace RawBuffer

variable {N : Nat}

/-- A new buffer; the array is not initialised. -/
def new (memory : Vector Byte N) : RawBuffer N := ⟨memory, 0, 0⟩

/-- The `size` bytes from `m_buffer.data() + offset` on, if the array has them. -/
def load (b : RawBuffer N) (offset size : Int) : Option Bytes :=
  if 0 ≤ offset ∧ 0 ≤ size ∧ offset + size ≤ N then
    some ((b.buffer.toList.drop offset.toNat).take size.toNat)
  else none

/-- `std::memcpy` to `m_buffer.data() + offset`, if the array has room for it there. -/
def store (b : RawBuffer N) (offset : Int) (src : Bytes) : Option (RawBuffer N) :=
  if 0 ≤ offset ∧ offset + src.length ≤ N then
    some { b with buffer := Vector.ofFn fun i =>
      if offset ≤ i ∧ i < offset + src.length then src.getD (i - offset).toNat 0 else b.buffer[i] }
  else none

def available (b : RawBuffer N) : Int := b.stop - b.start

def capacity (b : RawBuffer N) : Int := N - b.stop

def incrementReadP (b : RawBuffer N) (size : Int) : RawBuffer N :=
  let start := b.start + size
  if start = b.stop then { b with start := 0, stop := 0 } else { b with start := start }

def incrementWriteP (b : RawBuffer N) (size : Int) : RawBuffer N := { b with stop := b.stop + size }

def getReadChunk (b : RawBuffer N) : Option Bytes := b.load b.start b.available

def getWriteChunk (b : RawBuffer N) : Option Bytes := b.load b.stop b.capacity

/-- `read(void*, size)`: the bytes copied to the destination. -/
def read (b : RawBuffer N) (size : Int) : Option (Bytes × RawBuffer N) := do
  let sizeToRead := min size b.available
  let bytes ← b.load b.start sizeToRead
  pure (bytes, b.incrementReadP sizeToRead)

/-- `read(std::string&, size)`: the string with what is appended to it. -/
def readString (b : RawBuffer N) (dest : Bytes) (size : Int) : Option (Bytes × RawBuffer N) := do
  let sizeToRead := min size b.available
  let bytes ← b.load b.start sizeToRead
  pure (dest ++ bytes, b.incrementReadP sizeToRead)

def readC (b : RawBuffer N) : Option (Int × RawBuffer N) :=
  if b.available = 0 then some (-1, b)
  else do
    let bytes ← b.load b.start 1
    pure ((bytes.getD 0 0).toNat, b.incrementReadP 1)

def write (b : RawBuffer N) (src : Bytes) : Option (Int × RawBuffer N) := do
  let sizeToWrite := min b.capacity src.length
  let b ← b.store b.stop (src.take sizeToWrite.toNat)
  pure (sizeToWrite, b.incrementWriteP sizeToWrite)

end RawBuffer

/-! ## Calls -/

/-- What is done with a buffer. `fill` is `get_write_chunk` with these bytes written to its front and
`increment_write_p` of their number, `take` is `get_read_chunk` and `increment_read_p(k)`. -/
inductive BufferOp where
  | write (src : Bytes)
  | read (size : Nat)
  | readString (dest : Bytes) (size : Nat)
  | readC
  | fill (bytes : Bytes)
  | take (k : Nat)
  deriving DecidableEq, Repr

/-- The bytes that a call puts into the buffer, and those that it takes out of it. -/
structure Transfer where
  accepted : Bytes
  given : Bytes
  deriving DecidableEq, Repr

namespace BufferOp

variable {N : Nat}

/-- A caller fills and takes no more than there is. -/
def Allowed (b : RawBuffer N) : BufferOp → Prop
  | fill bytes => bytes.length ≤ b.capacity
  | take k => k ≤ b.available
  | _ => True

instance (b : RawBuffer N) : (op : BufferOp) → Decidable (op.Allowed b)
  | fill bytes => inferInstanceAs (Decidable ((bytes.length : Int) ≤ b.capacity))
  | take k => inferInstanceAs (Decidable ((k : Int) ≤ b.available))
  | write _ | read _ | readString _ _ | readC => isTrue trivial

/-- The call, unless it accesses something outside of the array. -/
def perform (b : RawBuffer N) : BufferOp → Option (Transfer × RawBuffer N)
  | write src => do
      let (written, b) ← b.write src
      pure (⟨src.take written.toNat, []⟩, b)
  | read size => do
      let (bytes, b) ← b.read size
      pure (⟨[], bytes⟩, b)
  | readString dest size => do
      let (s, b) ← b.readString dest size
      pure (⟨[], s.drop dest.length⟩, b)
  | readC => do
      let (c, b) ← b.readC
      pure (⟨[], if c < 0 then [] else [UInt8.ofNat c.toNat]⟩, b)
  | fill bytes => do
      let _ ← b.getWriteChunk
      let b ← b.store b.stop bytes
      pure (⟨bytes, []⟩, b.incrementWriteP bytes.length)
  | take k => do
      let chunk ← b.getReadChunk
      pure (⟨[], chunk.take k⟩, b.incrementReadP k)

/-- A call that is allowed, with what it transfers. -/
def Step (b : RawBuffer N) (call : BufferOp × Transfer) (b' : RawBuffer N) : Prop :=
  call.1.Allowed b ∧ call.1.perform b = some (call.2, b')

end BufferOp

/-! ## The bounds -/

namespace ByteBuffer

variable {N : Nat}

/-- A buffer without what is known of its positions. -/
def raw (b : ByteBuffer N) : RawBuffer N where
  buffer := ⟨b.buffer.toArray, b.length_buffer⟩
  start := b.start
  stop := b.stop

theorem available_raw (b : ByteBuffer N) : b.raw.available = b.available := by
  have := b.start_le
  simp only [RawBuffer.available, available, raw]
  omega

theorem capacity_raw (b : ByteBuffer N) : b.raw.capacity = b.capacity := by
  have := b.stop_le
  simp only [RawBuffer.capacity, capacity, raw]
  omega

theorem load_raw (b : ByteBuffer N) {offset size : Nat} (h : offset + size ≤ N) :
    b.raw.load offset size = some ((b.buffer.drop offset).take size) := by
  rw [RawBuffer.load, if_pos (by omega)]
  rfl

theorem incrementReadP_raw (b : ByteBuffer N) {size : Nat} (h : size ≤ b.available) :
    b.raw.incrementReadP size = (b.incrementReadP size h).raw := by
  rw [RawBuffer.incrementReadP, incrementReadP]
  by_cases hd : b.start + size = b.stop
  · have hraw : b.raw.start + size = b.raw.stop := by
      simp only [raw]
      omega
    rw [dif_pos hd, if_pos hraw]
    rfl
  · have hraw : b.raw.start + size ≠ b.raw.stop := by
      simp only [raw]
      omega
    rw [dif_neg hd, if_neg hraw]
    rfl

theorem getD_overwrite (b : ByteBuffer N) (src : Bytes) (i : Nat) : (b.overwrite src).getD i 0 =
      if b.stop ≤ i ∧ i < b.stop + src.length then src.getD (i - b.stop) 0 else b.buffer.getD i 0 := by
  have hlen := b.length_buffer
  have hstop := b.stop_le
  have hfront : (b.buffer.take b.stop).length = b.stop := by
    rw [List.length_take]
    omega
  simp only [overwrite, List.getD_eq_getElem?_getD]
  rcases Nat.lt_or_ge i b.stop with hlt | hge
  · rw [if_neg (by omega), List.getElem?_append_left (by omega), List.getElem?_take_of_lt hlt]
  · rw [List.getElem?_append_right (by omega), hfront]
    rcases Nat.lt_or_ge i (b.stop + src.length) with hin | hout
    · rw [if_pos ⟨hge, hin⟩, List.getElem?_append_left (by omega)]
    · rw [if_neg (by omega), List.getElem?_append_right (by omega), List.getElem?_drop]
      congr 2
      omega

theorem store_raw (b : ByteBuffer N) {src : Bytes} (h : src.length ≤ b.capacity) :
    ∃ r, b.raw.store b.raw.stop src = some r ∧
      r.incrementWriteP src.length = (b.commit src h).raw := by
  have hstop := b.stop_le
  have hcapacity : b.capacity = N - b.stop := rfl
  have hroom : 0 ≤ b.raw.stop ∧ b.raw.stop + src.length ≤ N := by
    simp only [raw]
    omega
  refine ⟨_, if_pos hroom, ?_⟩
  rw [RawBuffer.incrementWriteP, raw, RawBuffer.mk.injEq]
  refine ⟨Vector.ext fun i hi => ?_, rfl, ?_⟩
  · have hnew : (b.commit src h).raw.buffer[i] = (b.overwrite src).getD i 0 :=
      List.getElem_eq_getD 0
    have hold : b.raw.buffer[i] = b.buffer.getD i 0 := List.getElem_eq_getD 0
    rw [hnew, getD_overwrite, Vector.getElem_ofFn]
    dsimp only
    by_cases hin : b.stop ≤ i ∧ i < b.stop + src.length
    · rw [if_pos (by omega), if_pos hin]
      congr 1
      omega
    · rw [if_neg (by omega), if_neg hin]
      exact hold
  · simp only [raw, commit]
    omega

theorem load_front (b : ByteBuffer N) {size : Nat} (h : size ≤ b.available) :
    b.raw.load b.raw.start size = some (b.unread.take size) := by
  have hstop := b.stop_le
  have hstart := b.start_le
  have havailable : b.available = b.stop - b.start := rfl
  rw [unread, List.take_take, Nat.min_eq_left h]
  exact b.load_raw (by omega)

theorem min_raw (b : ByteBuffer N) (size : Nat) :
    min (size : Int) b.raw.available = (min size b.available : Nat) := by
  rw [available_raw, Nat.cast_min]

theorem getReadChunk_raw (b : ByteBuffer N) : b.raw.getReadChunk = some b.unread := by
  rw [RawBuffer.getReadChunk, available_raw, b.load_front (Nat.le_refl _), ← length_unread,
    List.take_length]

theorem getWriteChunk_raw (b : ByteBuffer N) :
    b.raw.getWriteChunk = some ((b.buffer.drop b.stop).take b.capacity) := by
  have hstop := b.stop_le
  have hcapacity : b.capacity = N - b.stop := rfl
  rw [RawBuffer.getWriteChunk, capacity_raw]
  exact b.load_raw (by omega)

theorem read_raw (b : ByteBuffer N) (size : Nat) :
    b.raw.read size = some ((b.read size).1, (b.read size).2.raw) := by
  have hle : min size b.available ≤ b.available := Nat.min_le_right _ _
  have hfirst : b.unread.take (min size b.available) = (b.read size).1 := by
    rw [read_fst, ← length_unread, ← List.take_eq_take_min]
  rw [RawBuffer.read, min_raw, b.load_front hle, b.incrementReadP_raw hle, hfirst]
  rfl

theorem readString_raw (b : ByteBuffer N) (dest : Bytes) (size : Nat) :
    b.raw.readString dest size = some (dest ++ (b.read size).1, (b.read size).2.raw) := by
  have hreads : b.raw.readString dest size =
      (b.raw.read size).map fun r => (dest ++ r.1, r.2) := by
    rw [RawBuffer.readString, RawBuffer.read]
    cases b.raw.load b.raw.start (min size b.raw.available) <;> rfl
  rw [hreads, b.read_raw]
  rfl

theorem readC_raw_nil {b : ByteBuffer N} (h : b.unread = []) : b.raw.readC = some (-1, b.raw) := by
  have hnone : b.raw.available = 0 := by
    rw [available_raw, b.available_eq_zero_iff.mpr h]
    rfl
  rw [RawBuffer.readC, if_pos hnone]

theorem readC_raw_cons {b : ByteBuffer N} {c : Byte} {cs : Bytes} (h : b.unread = c :: cs) :
    b.raw.readC = some ((c.toNat : Int), (b.read 1).2.raw) := by
  have havailable : b.available = cs.length + 1 := by rw [← length_unread, h, List.length_cons]
  have hsome : b.raw.available ≠ 0 := by
    rw [available_raw]
    omega
  have hone : 1 ≤ b.available := by omega
  have hmin : min 1 b.available = 1 := Nat.min_eq_left hone
  have hnext : b.raw.incrementReadP 1 = (b.read 1).2.raw :=
    (congrArg (fun n : Nat => b.raw.incrementReadP n) hmin).symm.trans
      (b.incrementReadP_raw (Nat.min_le_right 1 b.available))
  rw [RawBuffer.readC, if_neg hsome, hnext]
  have hload : b.raw.load b.raw.start 1 = some [c] := by
    have := b.load_front hone
    rwa [h] at this
  rw [hload]
  rfl

theorem write_raw (b : ByteBuffer N) (src : Bytes) :
    b.raw.write src = some (((b.write src).1 : Int), (b.write src).2.raw) := by
  have hmin : min b.raw.capacity src.length = (min b.capacity src.length : Nat) := by
    rw [capacity_raw, Nat.cast_min]
  have hlength : (src.take (min b.capacity src.length)).length = min b.capacity src.length := by
    rw [List.length_take]
    omega
  obtain ⟨r, hstore, hr⟩ := b.store_raw (hlength.trans_le (Nat.min_le_left _ _))
  have hnew : r.incrementWriteP (min b.capacity src.length : Nat) = (b.write src).2.raw :=
    (congrArg (fun n : Nat => r.incrementWriteP n) hlength).symm.trans hr
  rw [RawBuffer.write, hmin, Int.toNat_natCast, hstore]
  exact congrArg some (Prod.ext rfl hnew)

end ByteBuffer

namespace BufferOp

variable {N : Nat}

/-- No call accesses anything outside of the array, and what it takes out is what comes first. -/
theorem perform_raw (b : ByteBuffer N) {op : BufferOp} (h : op.Allowed b.raw) : ∃ t b',
    op.perform b.raw = some (t, ByteBuffer.raw b') ∧
      t.given ++ b'.unread = b.unread ++ t.accepted := by
  cases op with
  | write src =>
    refine ⟨⟨src.take (b.write src).1, []⟩, (b.write src).2, ?_, ?_⟩
    · rw [perform, b.write_raw]
      rfl
    · rw [List.nil_append, b.unread_write]
  | read size =>
    refine ⟨⟨[], (b.read size).1⟩, (b.read size).2, ?_, ?_⟩
    · rw [perform, b.read_raw]
      rfl
    · rw [b.read_fst, b.unread_read, List.take_append_drop, List.append_nil]
  | readString dest size =>
    refine ⟨⟨[], (b.read size).1⟩, (b.read size).2, ?_, ?_⟩
    · have happended : (dest ++ (b.read size).1).drop dest.length = (b.read size).1 :=
        List.drop_left
      rw [perform, b.readString_raw]
      exact congrArg (fun bytes => some (Transfer.mk [] bytes, (b.read size).2.raw)) happended
    · rw [b.read_fst, b.unread_read, List.take_append_drop, List.append_nil]
  | readC =>
    rcases hu : b.unread with _ | ⟨c, cs⟩
    · refine ⟨⟨[], []⟩, b, ?_, by rw [hu]⟩
      rw [perform, ByteBuffer.readC_raw_nil hu]
      rfl
    · refine ⟨⟨[], [c]⟩, (b.read 1).2, ?_, ?_⟩
      · have hc : (if (c.toNat : Int) < 0 then [] else [UInt8.ofNat (c.toNat : Int).toNat]) = [c] := by
          rw [if_neg (by omega), Int.toNat_natCast, UInt8.ofNat_toNat]
        rw [perform, ByteBuffer.readC_raw_cons hu]
        exact congrArg (fun bytes => some (Transfer.mk [] bytes, (b.read 1).2.raw)) hc
      · rw [b.unread_read, hu, List.append_nil]
        rfl
  | fill bytes =>
    have hroom : bytes.length ≤ b.capacity := by
      have := b.capacity_raw
      rw [Allowed, this] at h
      omega
    obtain ⟨r, hstore, hr⟩ := b.store_raw hroom
    refine ⟨⟨bytes, []⟩, b.commit bytes hroom, ?_, ?_⟩
    · rw [perform, b.getWriteChunk_raw, hstore, ← hr]
      rfl
    · rw [List.nil_append, b.unread_commit]
  | take k =>
    have hle : k ≤ b.available := by
      rw [Allowed, b.available_raw] at h
      omega
    refine ⟨⟨[], b.unread.take k⟩, b.incrementReadP k hle, ?_, ?_⟩
    · rw [perform, b.getReadChunk_raw, b.incrementReadP_raw hle]
      rfl
    · rw [b.unread_incrementReadP, List.take_append_drop, List.append_nil]

/-- The buffer at the end of the calls: within its bounds, with what has gone in and not come out. -/
theorem exists_raw_of_run {memory : Vector Byte N} {calls : List (BufferOp × Transfer)}
    {b : RawBuffer N} (hrun : Run Step (RawBuffer.new memory) calls b) : ∃ b', b = ByteBuffer.raw b' ∧
      (calls.flatMap fun call => call.2.given) ++ b'.unread =
        calls.flatMap fun call => call.2.accepted := by
  refine hrun.trace_invariant (fun calls b => ∃ b', b = ByteBuffer.raw b' ∧
      (calls.flatMap fun call => call.2.given) ++ b'.unread =
        calls.flatMap fun call => call.2.accepted) ?_ ?_
  · rintro calls _ ⟨op, t⟩ s' ⟨b, rfl, hcalls⟩ ⟨hallowed, hperform⟩
    obtain ⟨t', b', hraw, hpass⟩ := perform_raw b hallowed
    obtain ⟨rfl, rfl⟩ := Prod.mk.inj (Option.some.inj (hraw.symm.trans hperform))
    refine ⟨b', rfl, ?_⟩
    simp only [List.flatMap_append, List.flatMap_singleton]
    rw [List.append_assoc, hpass, ← List.append_assoc, hcalls]
  · refine ⟨⟨memory.toList, 0, 0, Vector.length_toList, Nat.le_refl 0, Nat.zero_le N, fun _ => rfl⟩,
      rfl, ?_⟩
    simp [ByteBuffer.unread, ByteBuffer.available]

end BufferOp

/-- Whatever calls were made on a new buffer: its positions are in their bounds, an empty buffer has
its whole capacity, what has come out and what can be read make up what has gone in, and no call that
may be made now accesses anything outside of the array. -/
theorem bounded_fifo {N : Nat} {memory : Vector Byte N} {calls : List (BufferOp × Transfer)}
    {b : RawBuffer N} (hrun : Run BufferOp.Step (RawBuffer.new memory) calls b) :
    (0 ≤ b.start ∧ b.start ≤ b.stop ∧ b.stop ≤ N) ∧ (b.available = 0 → b.capacity = N) ∧
      (∃ chunk, b.getReadChunk = some chunk ∧
        (calls.flatMap fun call => call.2.given) ++ chunk =
          calls.flatMap fun call => call.2.accepted) ∧
      ∀ op, BufferOp.Allowed b op → ∃ t b', op.perform b = some (t, b') := by
  obtain ⟨b, rfl, hcalls⟩ := BufferOp.exists_raw_of_run hrun
  have hstart := b.start_le
  have hstop := b.stop_le
  refine ⟨?_, fun hempty => ?_, ⟨b.unread, b.getReadChunk_raw, hcalls⟩, fun op hallowed => ?_⟩
  · simp only [ByteBuffer.raw]
    omega
  · rw [b.available_raw] at hempty
    rw [b.capacity_raw, ByteBuffer.capacity_of_unread_nil (b.available_eq_zero_iff.mp (by omega))]
  · obtain ⟨t, b', hperform, -⟩ := BufferOp.perform_raw b hallowed
    exact ⟨t, b'.raw, hperform⟩

/-- A write that is cut short, a read, and the rest of the bytes one way or another. -/
theorem bounded_fifo_four : ∃ b : RawBuffer 4,
    Run BufferOp.Step (RawBuffer.new (Vector.replicate 4 0))
      [(.write [1, 2, 3, 4, 5], ⟨[1, 2, 3, 4], []⟩), (.read 2, ⟨[], [1, 2]⟩), (.readC, ⟨[], [3]⟩),
        (.take 1, ⟨[], [4]⟩), (.fill [5], ⟨[5], []⟩)] b ∧
      0 ≤ b.start ∧ b.start ≤ b.stop ∧ b.stop ≤ 4 := by
  have hrun : Run BufferOp.Step (RawBuffer.new (Vector.replicate 4 0))
      [(.write [1, 2, 3, 4, 5], ⟨[1, 2, 3, 4], []⟩), (.read 2, ⟨[], [1, 2]⟩), (.readC, ⟨[], [3]⟩),
        (.take 1, ⟨[], [4]⟩), (.fill [5], ⟨[5], []⟩)] _ :=
    .cons ⟨trivial, rfl⟩ (.cons ⟨trivial, rfl⟩ (.cons ⟨trivial, rfl⟩
      (.cons ⟨by decide, rfl⟩ (.cons ⟨by decide, rfl⟩ (.nil _)))))
  exact ⟨_, hrun, (bounded_fifo hrun).1⟩

end CppEvent
