import CppEvent.Base.Util

/-!
# `byte_buffer`

The buffer of `byte_buffer.hpp`: an array of `N` bytes with a read position and a write position,
which both return to the front when the buffer drains. The bounds that every operation keeps are
fields of the structure. `unread` is what the buffer stands for, a queue of bytes, and each
operation comes with the lemma that says what it does to that queue.
-/

namespace CppEvent

/-- `byte_buffer<N>`: `buffer`, `start` and `stop` are `m_buffer`, `m_start` and `m_end`. -/
structure ByteBuffer (N : Nat) where
  buffer : Bytes
  start : Nat
  stop : Nat
  length_buffer : buffer.length = N
  start_le : start ≤ stop
  stop_le : stop ≤ N
  /-- A drained buffer has its whole array free. -/
  drained : start = stop → stop = 0

namespace ByteBuffer

variable {N : Nat}

def empty (N : Nat) : ByteBuffer N where
  buffer := List.replicate N 0
  start := 0
  stop := 0
  length_buffer := List.length_replicate
  start_le := Nat.le_refl 0
  stop_le := Nat.zero_le N
  drained := fun _ => rfl

def available (b : ByteBuffer N) : Nat := b.stop - b.start

def capacity (b : ByteBuffer N) : Nat := N - b.stop

/-- `get_read_chunk`: the bytes written and not yet read. -/
def unread (b : ByteBuffer N) : Bytes := (b.buffer.drop b.start).take b.available

/-- `increment_read_p`, for a size that is not more than what is available. -/
def incrementReadP (b : ByteBuffer N) (size : Nat) (h : size ≤ b.available) : ByteBuffer N :=
  if hd : b.start + size = b.stop then
    { b with start := 0, stop := 0, start_le := Nat.le_refl 0, stop_le := Nat.zero_le N,
             drained := fun _ => rfl }
  else
    { b with start := b.start + size,
             start_le := by have := b.start_le; unfold available at h; omega,
             drained := fun h' => absurd h' hd }

/-- The array after `std::memcpy(write_ptr(), src, src.size())`. -/
def overwrite (b : ByteBuffer N) (src : Bytes) : Bytes :=
  b.buffer.take b.stop ++ (src ++ b.buffer.drop (b.stop + src.length))

/-- Fill the write chunk with `src` and `increment_write_p(src.size())`. -/
def commit (b : ByteBuffer N) (src : Bytes) (h : src.length ≤ b.capacity) : ByteBuffer N where
  buffer := b.overwrite src
  start := b.start
  stop := b.stop + src.length
  length_buffer := by
    have h₁ := b.length_buffer
    have h₂ := b.stop_le
    simp only [capacity] at h
    simp only [overwrite, List.length_append, List.length_take, List.length_drop]
    omega
  start_le := by have := b.start_le; omega
  stop_le := by have := b.stop_le; simp only [capacity] at h; omega
  drained := fun hs => by have := b.start_le; have := b.drained; omega

/-- `read`, both overloads: the bytes handed to the caller and the buffer left. -/
def read (b : ByteBuffer N) (size : Nat) : Bytes × ByteBuffer N :=
  let sizeToRead := min size b.available
  ((b.buffer.drop b.start).take sizeToRead, b.incrementReadP sizeToRead (Nat.min_le_right _ _))

/-- `write`: the number of bytes taken from `src` and the buffer with them. -/
def write (b : ByteBuffer N) (src : Bytes) : Nat × ByteBuffer N :=
  let sizeToWrite := min b.capacity src.length
  (sizeToWrite, b.commit (src.take sizeToWrite) (by rw [List.length_take]; omega))

/-! ### The queue of unread bytes -/

@[simp] theorem length_unread (b : ByteBuffer N) : b.unread.length = b.available := by
  have h₁ := b.length_buffer
  have h₂ := b.stop_le
  simp only [unread, available, List.length_take, List.length_drop]
  omega

theorem available_eq_zero_iff (b : ByteBuffer N) : b.available = 0 ↔ b.unread = [] := by
  rw [← length_unread, List.length_eq_zero_iff]

theorem length_unread_le (b : ByteBuffer N) : b.unread.length ≤ N := by
  have := b.stop_le
  rw [length_unread, available]
  omega

@[simp] theorem unread_empty (N : Nat) : (empty N).unread = [] := by
  simp [empty, unread, available]

theorem capacity_of_unread_nil {b : ByteBuffer N} (h : b.unread = []) : b.capacity = N := by
  have h₀ : b.available = 0 := b.available_eq_zero_iff.mpr h
  have h₁ := b.start_le
  have h₂ := b.drained (by unfold available at h₀; omega)
  rw [capacity, h₂, Nat.sub_zero]

@[simp] theorem unread_incrementReadP (b : ByteBuffer N) (size : Nat) (h : size ≤ b.available) :
    (b.incrementReadP size h).unread = b.unread.drop size := by
  have h₁ := b.start_le
  unfold incrementReadP
  split
  · rename_i hd
    have : b.unread.drop size = [] := by
      rw [List.drop_eq_nil_iff, length_unread, available]
      omega
    rw [this]
    simp [unread, available]
  · simp only [unread, available, List.drop_take, List.drop_drop]
    congr 1
    omega

theorem unread_commit (b : ByteBuffer N) (src : Bytes) (h : src.length ≤ b.capacity) :
    (b.commit src h).unread = b.unread ++ src := by
  have h₀ := b.length_buffer
  have h₁ := b.start_le
  have h₂ := b.stop_le
  have hlen : (b.buffer.take b.stop).length = b.stop := by
    rw [List.length_take]; omega
  have hsum : b.stop + src.length - b.start = (b.stop - b.start) + src.length := by omega
  have hcut : ((b.buffer.take b.stop).drop b.start).length = b.stop - b.start := by
    rw [List.length_drop, hlen]
  simp only [unread, available, commit, overwrite]
  rw [List.drop_append_of_le_length (by omega), hsum, ← hcut, List.take_length_add_append,
    List.take_left, hcut, List.drop_take]

theorem read_fst (b : ByteBuffer N) (size : Nat) : (b.read size).1 = b.unread.take size := by
  simp only [read, unread, List.take_take]

theorem unread_read (b : ByteBuffer N) (size : Nat) :
    (b.read size).2.unread = b.unread.drop size := by
  simp only [read, unread_incrementReadP]
  rcases Nat.le_total size b.available with h | h
  · rw [Nat.min_eq_left h]
  · rw [Nat.min_eq_right h, List.drop_of_length_le (by simp), List.drop_of_length_le (by simpa)]

theorem write_fst (b : ByteBuffer N) (src : Bytes) :
    (b.write src).1 = min b.capacity src.length := rfl

theorem unread_write (b : ByteBuffer N) (src : Bytes) :
    (b.write src).2.unread = b.unread ++ src.take (b.write src).1 := by
  simp only [write, unread_commit]

end ByteBuffer

end CppEvent
