import CppEvent.Library.Transition
import CppEvent.Net.Socket

/-!
# Reading from a socket

Any sequence of read operations on a socket whose peer sends a stream and may close: what the calls
return, skip or seek over is the stream, in order (`reads_stream`). The buffer is refilled only when
it is drained, so every recv offers the whole of it.
-/

namespace CppEvent

open Coroutine Transition

namespace Input

def Healthy (s : Input) : Prop := ∀ errnum pos, .failed errnum pos ∉ s.recvs

/-- Every recv was issued with the buffer drained and the whole of it as its span. -/
def FullSpans (s : Input) : Prop := ∀ span ∈ s.offered, span = (0, socketBufferSize)

/-- The peer has closed, and nothing is left of what it sent. -/
def AtEnd (s : Input) : Prop := s.buffer.unread = [] ∧ ∃ rest, s.recvs = .closed :: rest

/-- What every operation keeps: no recv fails, and recvs are issued with the whole buffer. -/
structure Sound (s : Input) : Prop where
  healthy : s.Healthy
  fullSpans : s.FullSpans

theorem AtEnd.pending_eq {s : Input} (h : s.AtEnd) : s.pending = [] := by
  obtain ⟨hu, rest, hr⟩ := h
  rw [pending, hu, hr]
  rfl

theorem Sound.offer {s : Input} (h : s.Sound) (hu : s.buffer.unread = []) : s.offer.Sound := by
  refine ⟨h.healthy, fun n hn => ?_⟩
  rcases List.mem_append.mp hn with hn | hn
  · exact h.fullSpans n hn
  · rw [List.mem_singleton.mp hn, s.buffer.available_eq_zero_iff.mpr hu,
      ByteBuffer.capacity_of_unread_nil hu]

/-- A recv with a drained buffer waits, brings bytes, or tells that the peer has closed. -/
theorem recvIncoming_sound {s : Input} (h : s.Sound) (hu : s.buffer.unread = []) :
    ∃ s', s'.Sound ∧ s.pending = s'.pending ∧
      ((recvIncoming.run s = (.suspended, s') ∧ s'.recvs = [] ∧ s'.buffer.unread = []) ∨
        (recvIncoming.run s = (.returned 0, s') ∧ s'.AtEnd) ∨
        ∃ n : Nat, 0 < n ∧ recvIncoming.run s = (.returned (n : Int), s') ∧
          s'.buffer.unread.length = n ∧ s'.recvs.length < s.recvs.length) := by
  have hoffer := h.offer hu
  rcases hr : s.recvs with _ | ⟨segment | _ | ⟨errnum, hpos⟩, rest⟩
  · refine ⟨{ s.offer with inFlight := s.inFlight + 1 }, ⟨hoffer.healthy, hoffer.fullSpans⟩, rfl,
      .inl ⟨?_, hr, hu⟩⟩
    simp only [recvIncoming, hr]
  · obtain ⟨s', hrun, hu', hr', hc⟩ := recvIncoming_data hr hu
    have hstate : s' = { s.offer with
        buffer := (s.buffer.write segment.bytes).2, recvs := rest } := by
      simp only [recvIncoming, hr] at hrun
      exact (Prod.mk.inj hrun).2.symm
    refine ⟨s', ⟨fun errnum pos hmem => h.healthy errnum pos ?_, ?_⟩, ?_, .inr (.inr
      ⟨segment.bytes.length, List.length_pos_iff.mpr segment.nonempty, hrun, by rw [hu'], ?_⟩)⟩
    · rw [hr'] at hmem
      rw [hr]
      exact List.mem_cons_of_mem _ hmem
    · rw [hstate]
      exact hoffer.fullSpans
    · have := hc.pending_eq
      rwa [List.nil_append] at this
    · rw [hr', List.length_cons]
      omega
  · refine ⟨s.offer, hoffer, rfl, .inr (.inl ⟨?_, hu, rest, hr⟩)⟩
    simp only [recvIncoming, hr]
  · exact absurd (by rw [hr]; exact List.mem_cons_self) (h.healthy errnum hpos)

/-- How the loop that the reads share leaves off: with all that was asked for, or, where the peer has
closed, with less or an exception; or it waits. -/
def ConsumeLeaves (name : String) (size : Nat) (fully : Bool) (s : Input) (o : Outcome Exn Bytes)
    (s' : Input) : Prop :=
  s'.Sound ∧ ∃ bs, s.pending = bs ++ s'.pending ∧
    match o with
    | .returned got => got = bs ∧ (got.length = size ∨ fully = false ∧ got.length < size ∧ s'.AtEnd)
    | .threw e => e = .runtimeError (name ++ " failed: socket closed") ∧ fully = true ∧
        bs.length < size ∧ s'.AtEnd
    | .suspended => s'.pending = []
    | .undefined => False

theorem takeBuffered_sound {s : Input} (h : s.Sound) (n : Nat) :
    ∃ s', (takeBuffered n).run s = (.returned (s.buffer.unread.take n), s') ∧ s'.Sound ∧
      s'.recvs = s.recvs ∧ s'.buffer.unread = s.buffer.unread.drop n ∧
      s.pending = s.buffer.unread.take n ++ s'.pending := by
  refine ⟨{ s with buffer := (s.buffer.read n).2 }, ?_, ⟨h.healthy, h.fullSpans⟩, rfl,
    ByteBuffer.unread_read _ _, ?_⟩
  · simp only [takeBuffered, ByteBuffer.read_fst]
  · simp only [pending, ByteBuffer.unread_read]
    rw [← List.append_assoc, List.take_append_drop]

theorem consumeRound_sound (name : String) {size : Nat} (fully : Bool) {got : Bytes} {s : Input}
    (h : s.Sound) (hle : got.length ≤ size)
    (hdrained : got.length < size → s.buffer.unread = []) :
    (got.length = size ∧ (consumeRound name size fully got).run s = (.returned (.inr got), s)) ∨
      got.length < size ∧ ∃ s', s'.Sound ∧
        (((consumeRound name size fully got).run s = (.suspended, s') ∧
            s.pending = s'.pending ∧ s'.pending = []) ∨
          (fully = true ∧ (consumeRound name size fully got).run s =
            (.threw (.runtimeError (name ++ " failed: socket closed")), s') ∧
            s.pending = s'.pending ∧ s'.AtEnd) ∨
          (fully = false ∧ (consumeRound name size fully got).run s = (.returned (.inr got), s') ∧
            s.pending = s'.pending ∧ s'.AtEnd) ∨
          ∃ more, (consumeRound name size fully got).run s = (.returned (.inl (got ++ more)), s') ∧
            s.pending = more ++ s'.pending ∧ s'.recvs.length < s.recvs.length ∧
            (got ++ more).length ≤ size ∧
            ((got ++ more).length < size → s'.buffer.unread = [])) := by
  rcases Nat.lt_or_ge got.length size with hlt | hge
  · right
    refine ⟨hlt, ?_⟩
    rw [consumeRound, if_neg (by omega)]
    obtain ⟨s₁, h₁, hp₁, ⟨hrun, hr₁, hu₁⟩ | ⟨hrun, hend⟩ | ⟨n, hn, hrun, hu₁, hless⟩⟩ :=
      recvIncoming_sound h (hdrained hlt)
    · refine ⟨s₁, h₁, .inl ⟨Coro.bind_suspended _ hrun, hp₁, ?_⟩⟩
      rw [pending, hu₁, hr₁]
      rfl
    · rw [Coro.bind_returned _ hrun, if_neg (by omega), if_pos rfl]
      cases fully with
      | true => exact ⟨s₁, h₁, .inr (.inl ⟨rfl, rfl, hp₁, hend⟩)⟩
      | false => exact ⟨s₁, h₁, .inr (.inr (.inl ⟨rfl, rfl, hp₁, hend⟩))⟩
    · obtain ⟨s₂, htake, h₂, hr₂, hu₂, hp₂⟩ := takeBuffered_sound h₁ (size - got.length)
      rw [Coro.bind_returned _ hrun, if_neg (by omega), if_neg (by omega),
        Coro.bind_returned _ htake]
      refine ⟨s₂, h₂, .inr (.inr (.inr ⟨_, rfl, hp₁.trans hp₂, by rw [hr₂]; exact hless, ?_,
        fun hshort => ?_⟩))⟩
      · rw [List.length_append, List.length_take]
        omega
      · rw [List.length_append, List.length_take] at hshort
        rw [hu₂, List.drop_eq_nil_iff]
        omega
  · exact .inl ⟨by omega, by rw [consumeRound, if_pos hge, Coro.run_pure]⟩

theorem consume_leaves (name : String) (size : Nat) (fully : Bool) {s : Input} (h : s.Sound) :
    ConsumeLeaves name size fully s ((consume name size fully).run s).1
      ((consume name size fully).run s).2 := by
  obtain ⟨s₀, hrun, h₀, hr₀, hu₀, hp₀⟩ := takeBuffered_sound h size
  rw [consume, Coro.bind_returned _ hrun]
  -- between rounds: what was taken and what is to come is the stream, and the buffer is drained
  suffices hround : _ by
    obtain ⟨o, s', hloop, hpost⟩ := Coro.loop_leaves (fun s => s.recvs.length + 1)
      (consumeRound name size fully)
      (fun got s' => s'.Sound ∧ s.pending = got ++ s'.pending ∧ got.length ≤ size ∧
        (got.length < size → s'.buffer.unread = []))
      (ConsumeLeaves name size fully s) (fun _ s' => s'.recvs.length) (s.buffer.unread.take size) s₀
      ⟨h₀, hp₀, by rw [List.length_take]; omega, fun hlt => by
        rw [List.length_take] at hlt
        rw [hu₀, List.drop_eq_nil_iff]
        omega⟩ (Nat.lt_succ_self _) hround
    rw [hloop]
    exact hpost
  rintro got s₁ ⟨h₁, hp₁, hle, hdrained⟩
  rcases consumeRound_sound name fully h₁ hle hdrained with ⟨hsize, hr⟩ |
    ⟨hlt, s₂, h₂, ⟨hr, hp₂, hnil⟩ | ⟨hfully, hr, hp₂, hend⟩ | ⟨hfully, hr, hp₂, hend⟩ |
      ⟨more, hr, hp₂, hless, hle', hdrained'⟩⟩
  · exact .inr ⟨_, s₁, _, hr, rfl, h₁, got, hp₁, rfl, .inl hsize⟩
  · exact .inr ⟨_, s₂, _, hr, rfl, h₂, got, by rw [hp₁, hp₂], hnil⟩
  · exact .inr ⟨_, s₂, _, hr, rfl, h₂, got, by rw [hp₁, hp₂], rfl, hfully, hlt, hend⟩
  · exact .inr ⟨_, s₂, _, hr, rfl, h₂, got, by rw [hp₁, hp₂], rfl, .inr ⟨hfully, hlt, hend⟩⟩
  · refine .inl ⟨got ++ more, s₂, hr, ⟨h₂, ?_, hle', hdrained'⟩, hless⟩
    rw [hp₁, hp₂, List.append_assoc]

/-! ## Calls -/

/-- The read operations of a socket. What `seek` follows a `peek` with may depend on what it shows. -/
inductive Call where
  | readInto (size : Nat) (fully : Bool)
  | read (size : Nat) (fully : Bool)
  | skip (size : Nat) (fully : Bool)
  | readC (fully : Bool)
  | peekSeek (offset : (chunk : Bytes) → Fin (chunk.length + 1))

inductive Reply where
  | bytes (bs : Bytes)
  | count (n : Int)
  | char (c : Int)
  | chunk (shown : Bytes) (offset : Nat)

def Call.perform : Call → Coro Input Exn Reply
  | .readInto size fully => do
      let bs ← Input.readInto size fully
      pure (.bytes bs)
  | .read size fully => do
      let bs ← Input.read size fully
      pure (.bytes bs)
  | .skip size fully => do
      let n ← Input.skip size fully
      pure (.count n)
  | .readC fully => do
      let c ← Input.readC fully
      pure (.char c)
  | .peekSeek offset => do
      let chunk ← peek
      seek (offset chunk)
      pure (.chunk chunk (offset chunk))

/-- The number of bytes that a call asks for, and whether it asks for all of them. -/
def Call.wants : Call → Option (Nat × Bool)
  | .readInto size fully | .read size fully | .skip size fully => some (size, fully)
  | .readC fully => some (1, fully)
  | .peekSeek _ => none

def Reply.size : Reply → Nat
  | .bytes bs => bs.length
  | .count n => n.toNat
  | .char c => if c < 0 then 0 else 1
  | .chunk _ offset => offset

/-- The reply is right for a call that covers these bytes. -/
def Reply.Shows : Reply → Bytes → Prop
  | .bytes bs, covered => bs = covered
  | .count n, covered => n = covered.length
  | .char c, covered => covered = [] ∧ c = -1 ∨ ∃ b : Byte, covered = [b] ∧ c = b.toNat
  | .chunk shown offset, covered => offset ≤ shown.length ∧ shown.take offset = covered

theorem Reply.Shows.size_eq {reply : Reply} {covered : Bytes} (h : reply.Shows covered) :
    reply.size = covered.length := by
  cases reply with
  | bytes bs => rw [← show bs = covered from h]; rfl
  | count n =>
    rw [show n = covered.length from h]
    rfl
  | char c =>
    rcases h with ⟨rfl, rfl⟩ | ⟨b, rfl, rfl⟩
    · rfl
    · have hneg : ¬ (b.toNat : Int) < 0 := by omega
      rw [Reply.size, if_neg hneg]
      rfl
  | chunk shown offset =>
    obtain ⟨hle, rfl⟩ := h
    rw [List.length_take, Nat.min_eq_left hle]
    rfl

/-- How a call leaves off: with a reply for the bytes that it covers, all that it asked for unless
the peer has closed; or with an exception for want of bytes; or it waits. -/
def CallLeaves (call : Call) (s : Input) (o : Outcome Exn Reply) (s' : Input) : Prop :=
  s'.Sound ∧ ∃ bs, s.pending = bs ++ s'.pending ∧
    match o with
    | .returned reply => reply.Shows bs ∧ ∀ n fully, call.wants = some (n, fully) →
        bs.length = n ∨ fully = false ∧ bs.length < n ∧ s'.AtEnd
    | .threw _ => ∃ n, call.wants = some (n, true) ∧ bs.length < n ∧ s'.AtEnd
    | .suspended => s'.pending = []
    | .undefined => False

theorem callLeaves_of_consume {call : Call} (name : String) (reply : Bytes → Reply) {size : Nat}
    {fully : Bool} {s : Input} (h : s.Sound) (hwants : call.wants = some (size, fully))
    (hperform : call.perform.run s = (consume name size fully >>= fun bs => pure (reply bs)).run s)
    (hreply : ∀ bs, (reply bs).Shows bs) :
    CallLeaves call s (call.perform.run s).1 (call.perform.run s).2 := by
  obtain ⟨hsound, bs, hp, hleaves⟩ := consume_leaves name size fully h
  rw [hperform, Coro.run_bind]
  rcases hrun : (consume name size fully).run s with ⟨got | e | _ | _, s'⟩
  all_goals rw [hrun] at hsound hp hleaves
  · obtain ⟨rfl, hsize⟩ := hleaves
    refine ⟨hsound, got, hp, hreply got, fun n fully' hn => ?_⟩
    obtain ⟨rfl, rfl⟩ := Prod.mk.inj (Option.some.inj (hwants.symm.trans hn))
    exact hsize
  · obtain ⟨-, hfully, hlt, hend⟩ := hleaves
    exact ⟨hsound, bs, hp, size, by rw [hwants, hfully], hlt, hend⟩
  · exact ⟨hsound, bs, hp, hleaves⟩
  · exact hleaves.elim

theorem bufferReadC_run {s : Input} (h : s.Sound) :
    ∃ s' bs c, readC.bufferReadC.run s = (.returned c, s') ∧ s'.Sound ∧ s.pending = bs ++ s'.pending ∧
      Reply.Shows (.char c) bs ∧ (s.buffer.unread ≠ [] → bs.length = 1) ∧
      (s.AtEnd → bs = [] ∧ s'.AtEnd) := by
  obtain ⟨s', htake, h', hr', hu', hp'⟩ := takeBuffered_sound h 1
  rw [readC.bufferReadC, Coro.bind_returned _ htake]
  cases hu : s.buffer.unread with
  | nil =>
    rw [hu] at hu' hp'
    exact ⟨s', [], -1, rfl, h', hp', .inl ⟨rfl, rfl⟩, fun hne => absurd rfl hne,
      fun hend => ⟨rfl, hu', by rw [hr']; exact hend.2⟩⟩
  | cons b bs =>
    rw [hu] at hp'
    refine ⟨s', [b], b.toNat, rfl, h', hp', .inr ⟨b, rfl, rfl⟩, fun _ => rfl, fun hend => ?_⟩
    rw [hend.1] at hu
    cases hu

theorem readC_leaves (fully : Bool) {s : Input} (h : s.Sound) :
    CallLeaves (.readC fully) s ((Call.readC fully).perform.run s).1
      ((Call.readC fully).perform.run s).2 := by
  -- what the buffer's own operation makes of a call whose buffer is filled, or whose peer has closed
  have hbuffer : ∀ s₁ : Input, s₁.Sound → s.pending = s₁.pending →
      s₁.buffer.unread ≠ [] ∨ fully = false ∧ s₁.AtEnd →
      (Call.readC fully).perform.run s = (readC.bufferReadC >>= fun c => pure (.char c)).run s₁ →
      CallLeaves (.readC fully) s ((Call.readC fully).perform.run s).1
        ((Call.readC fully).perform.run s).2 := by
    intro s₁ h₁ hp₁ hfilled hrun
    obtain ⟨s', bs, c, hc, h', hp', hshows, hone, hend⟩ := bufferReadC_run h₁
    rw [hrun, Coro.bind_returned _ hc]
    refine ⟨h', bs, hp₁.trans hp', hshows, fun n fully' hn => ?_⟩
    obtain ⟨rfl, rfl⟩ := Prod.mk.inj (Option.some.inj hn)
    rcases hfilled with hne | ⟨hfully, hatEnd⟩
    · exact .inl (hone hne)
    · obtain ⟨rfl, hend'⟩ := hend hatEnd
      exact .inr ⟨hfully, Nat.zero_lt_one, hend'⟩
  by_cases hu : s.buffer.unread = []
  · have hperform : (Call.readC fully).perform.run s = ((do
        let status ← recvIncoming
        if status < 0 then Coro.fail (.systemError "socket read_c failed: " (0 - status).toNat)
        else if status = 0 ∧ fully then
          Coro.fail (.runtimeError "socket read_c failed: socket closed")
        else readC.bufferReadC) >>= fun c => pure (.char c) : Coro Input Exn Reply).run s := by
      have hav : s.buffer.available = 0 := s.buffer.available_eq_zero_iff.mpr hu
      simp only [Call.perform, Input.readC, Coro.run_bind, Coro.run_get, hav, if_pos]
    obtain ⟨s₁, h₁, hp₁, ⟨hrun, hr₁, hu₁⟩ | ⟨hrun, hend⟩ | ⟨n, hn, hrun, hu₁, -⟩⟩ :=
      recvIncoming_sound h hu
    · rw [hperform, Coro.bind_suspended _ (Coro.bind_suspended _ hrun)]
      refine ⟨h₁, [], hp₁, ?_⟩
      show s₁.pending = []
      rw [pending, hu₁, hr₁]
      rfl
    · cases fully with
      | true =>
        rw [hperform, Coro.bind_threw _ (Coro.bind_returned _ hrun)]
        exact ⟨h₁, [], hp₁, 1, rfl, Nat.zero_lt_one, hend⟩
      | false =>
        apply hbuffer s₁ h₁ hp₁ (.inr ⟨rfl, hend⟩)
        rw [hperform]
        simp [Coro.run_bind, hrun]
    · apply hbuffer s₁ h₁ hp₁ (.inl fun hnil => by rw [hnil] at hu₁; simp at hu₁; omega)
      rw [hperform]
      have hneg : ¬ (n : Int) < 0 := by omega
      have hzero : ¬ ((n : Int) = 0 ∧ fully = true) := by omega
      simp only [Coro.run_bind, hrun, hneg, hzero, if_false]
  · apply hbuffer s h rfl (.inl hu)
    have hav : s.buffer.available ≠ 0 := fun hav => hu (s.buffer.available_eq_zero_iff.mp hav)
    simp only [Call.perform, Input.readC, Coro.run_bind, Coro.run_get, hav, if_false]

/-- A peek shows what is buffered, behind a recv if the buffer was drained. -/
theorem peek_leaves {s : Input} (h : s.Sound) :
    ∃ s', s'.Sound ∧ s.pending = s'.pending ∧
      (peek.run s = (.suspended, s') ∧ s'.pending = [] ∨
        peek.run s = (.returned s'.buffer.unread, s')) := by
  by_cases hu : s.buffer.unread = []
  · rw [peek, Coro.run_get_bind, if_pos hu]
    obtain ⟨s₁, h₁, hp₁, ⟨hrun, hr₁, hu₁⟩ | ⟨hrun, hend⟩ | ⟨n, hn, hrun, hu₁, -⟩⟩ :=
      recvIncoming_sound h hu
    · refine ⟨s₁, h₁, hp₁, .inl ⟨Coro.bind_suspended _ hrun, ?_⟩⟩
      rw [pending, hu₁, hr₁]
      rfl
    · exact ⟨s₁, h₁, hp₁, .inr (by rw [Coro.bind_returned _ hrun]; rfl)⟩
    · refine ⟨s₁, h₁, hp₁, .inr ?_⟩
      rw [Coro.bind_returned _ hrun, if_neg (by omega), Coro.run_get_bind, Coro.run_pure]
  · exact ⟨s, h, rfl, .inr (by rw [peek, Coro.run_get_bind, if_neg hu, Coro.run_pure])⟩

theorem peekSeek_leaves (offset : (chunk : Bytes) → Fin (chunk.length + 1)) {s : Input}
    (h : s.Sound) :
    CallLeaves (.peekSeek offset) s ((Call.peekSeek offset).perform.run s).1
      ((Call.peekSeek offset).perform.run s).2 := by
  obtain ⟨s₁, h₁, hp₁, ⟨hrun, hnil⟩ | hrun⟩ := peek_leaves h
  · rw [Call.perform, Coro.bind_suspended _ hrun]
    exact ⟨h₁, [], hp₁, hnil⟩
  · have hle : (offset s₁.buffer.unread : Nat) ≤ s₁.buffer.unread.length :=
      Nat.le_of_lt_succ (offset _).isLt
    have havailable : (offset s₁.buffer.unread : Nat) ≤ s₁.buffer.available := by
      rwa [← ByteBuffer.length_unread]
    have hseek : (seek (offset s₁.buffer.unread)).run s₁ = (.returned (),
        { s₁ with buffer := s₁.buffer.incrementReadP (offset s₁.buffer.unread) havailable }) := by
      simp only [seek, dif_pos havailable]
    rw [Call.perform, Coro.bind_returned _ hrun, Coro.bind_returned _ hseek]
    refine ⟨⟨h₁.healthy, h₁.fullSpans⟩, s₁.buffer.unread.take (offset s₁.buffer.unread), ?_,
      ⟨hle, rfl⟩, fun n fully hn => by cases hn⟩
    rw [hp₁]
    simp only [Coro.run_pure, pending, ByteBuffer.unread_incrementReadP]
    rw [← List.append_assoc, List.take_append_drop]

theorem call_leaves (call : Call) {s : Input} (h : s.Sound) :
    CallLeaves call s (call.perform.run s).1 (call.perform.run s).2 := by
  cases call with
  | readInto size fully =>
    apply callLeaves_of_consume "socket read" .bytes h rfl
    · rw [Call.perform, Input.readInto, if_neg (by omega), Int.toNat_natCast]
    · exact fun bs => rfl
  | read size fully =>
    apply callLeaves_of_consume "socket read" .bytes h rfl
    · rw [Call.perform, Input.read, if_neg (by omega), Int.toNat_natCast]
    · exact fun bs => rfl
  | skip size fully =>
    apply callLeaves_of_consume "socket skip" (fun bs => .count bs.length) h rfl
    · rw [Call.perform, Input.skip, if_neg (by omega), Int.toNat_natCast]
      simp only [Coro.run_bind]
      rcases (consume "socket skip" size fully).run s with ⟨_ | _ | _ | _, _⟩ <;> rfl
    · exact fun bs => rfl
  | readC fully => exact readC_leaves fully h
  | peekSeek offset => exact peekSeek_leaves offset h

/-! ## Runs -/

/-- What a finished call covered. -/
def Covers : Outcome Exn Reply → Bytes → Prop
  | .returned reply, bs => reply.Shows bs
  | _, bs => bs = []

def Step (s : Input) (a : Call × Outcome Exn Reply) (s' : Input) : Prop :=
  a.1.perform.run s = (a.2, s') ∧ ((∃ reply, a.2 = .returned reply) ∨ ∃ e, a.2 = .threw e)

/-- What the caller of a call that asks for `n` bytes is promised: all of them, or an exception if it
asked to read fully; fewer only where the peer has closed and nothing is left. -/
def Keeps (call : Call) : Outcome Exn Reply → Input → Prop
  | .returned reply, s' => ∀ n fully, call.wants = some (n, fully) →
      reply.size = n ∨ fully = false ∧ reply.size < n ∧ s'.AtEnd
  | .threw _, s' => ∃ n, call.wants = some (n, true) ∧ s'.AtEnd
  | .suspended, s' => s'.pending = []
  | .undefined, _ => False

/-- The socket of a peer that sends these segments and then maybe closes. -/
def ofPeer (segments : List Segment) (closes : Bool) : Input where
  buffer := ByteBuffer.empty socketBufferSize
  recvs := segments.map .data ++ if closes then [.closed] else []
  inFlight := 0
  offered := []

/-- The stream is what the calls covered and what is pending; once a call has thrown away what it
read, nothing is pending. -/
def Follows (stream : Bytes) (pieces : List Bytes) (s : Input) : Prop :=
  ∃ lost, stream = pieces.flatten ++ (lost ++ s.pending) ∧ (lost = [] ∨ s.pending = [])

theorem ofPeer_sound (segments : List Segment) (closes : Bool) : (ofPeer segments closes).Sound where
  healthy := by
    intro errnum pos hmem
    rcases List.mem_append.mp hmem with hmem | hmem
    · obtain ⟨segment, -, heq⟩ := List.mem_map.mp hmem
      cases heq
    · cases closes <;> simp at hmem
  fullSpans := by
    intro span hmem
    cases hmem

theorem ofPeer_pending (segments : List Segment) (closes : Bool) :
    (ofPeer segments closes).pending = segments.flatMap Segment.bytes := by
  have hnil : carried (if closes then [.closed] else []) = [] := by cases closes <;> rfl
  rw [pending, ofPeer, ByteBuffer.unread_empty, carried_map_data, hnil, List.append_nil]
  rfl

theorem CallLeaves.keeps {call : Call} {s s' : Input} {o : Outcome Exn Reply}
    (h : CallLeaves call s o s') : Keeps call o s' := by
  obtain ⟨-, bs, -, hleaves⟩ := h
  cases o with
  | returned reply =>
    intro n fully hn
    rw [hleaves.1.size_eq]
    exact hleaves.2 n fully hn
  | threw e =>
    obtain ⟨n, hn, -, hend⟩ := hleaves
    exact ⟨n, hn, hend⟩
  | suspended => exact hleaves
  | undefined => exact hleaves

theorem follows_step {stream : Bytes} {pieces : List Bytes} {s s' : Input}
    {a : Call × Outcome Exn Reply} (h : s.Sound) (hfollows : Follows stream pieces s)
    (hstep : Step s a s') :
    s'.Sound ∧ ∃ bs, Covers a.2 bs ∧ Follows stream (pieces ++ [bs]) s' := by
  obtain ⟨call, o⟩ := a
  obtain ⟨hrun, hfinished⟩ := hstep
  obtain ⟨h', bs, hp, hleaves⟩ := call_leaves call h
  simp only at hrun hfinished
  rw [hrun] at h' hp hleaves
  obtain ⟨lost, hstream, hlost⟩ := hfollows
  rcases hfinished with ⟨reply, rfl⟩ | ⟨e, rfl⟩
  · refine ⟨h', bs, hleaves.1, lost, ?_, ?_⟩
    · rcases hlost with rfl | hnil
      · rw [hstream, hp]
        simp
      · rw [hnil, eq_comm, List.append_eq_nil_iff] at hp
        rw [hstream, hnil, hp.1, hp.2]
        simp
    · rcases hlost with rfl | hnil
      · exact .inl rfl
      · rw [hnil, eq_comm, List.append_eq_nil_iff] at hp
        exact .inr hp.2
  · obtain ⟨n, hn, -, hend⟩ := hleaves
    refine ⟨h', [], rfl, lost ++ bs, ?_, .inr hend.pending_eq⟩
    rw [hstream, hp]
    simp

theorem follows_of_run {segments : List Segment} {closes : Bool} {s : Input}
    {as : List (Call × Outcome Exn Reply)} (h : Run Step (ofPeer segments closes) as s) :
    s.Sound ∧ ∃ pieces, List.Forall₂ (fun a bs => Covers a.2 bs) as pieces ∧
      Follows (segments.flatMap Segment.bytes) pieces s := by
  apply h.trace_invariant (fun as s => s.Sound ∧ ∃ pieces,
    List.Forall₂ (fun a bs => Covers a.2 bs) as pieces ∧
      Follows (segments.flatMap Segment.bytes) pieces s)
  · rintro as s a s' ⟨hs, pieces, hpieces, hfollows⟩ hstep
    obtain ⟨hs', bs, hcovers, hfollows'⟩ := follows_step hs hfollows hstep
    exact ⟨hs', pieces ++ [bs], List.rel_append hpieces (.cons hcovers .nil), hfollows'⟩
  · refine ⟨ofPeer_sound segments closes, [], .nil, [], ?_, .inl rfl⟩
    rw [ofPeer_pending]
    rfl

/-- However the peer's bytes are cut into segments, whatever read operations are called one after the
other: what they cover is, in order, a prefix of what the peer sent; each call covers what it asked for,
or less at the peer's close, where a full read throws; and every recv is given the whole buffer. -/
theorem reads_stream (segments : List Segment) (closes : Bool)
    (as : List (Call × Outcome Exn Reply)) (s : Input)
    (h : Run Step (ofPeer segments closes) as s) :
    (∃ pieces, List.Forall₂ (fun a bs => Covers a.2 bs) as pieces ∧
      pieces.flatten <+: segments.flatMap Segment.bytes) ∧
    ∀ call : Call, Keeps call (call.perform.run s).1 (call.perform.run s).2 ∧
      (call.perform.run s).2.FullSpans := by
  obtain ⟨hs, pieces, hpieces, lost, hstream, -⟩ := follows_of_run h
  refine ⟨⟨pieces, hpieces, ?_⟩, fun call => ?_⟩
  · rw [hstream]
    exact List.prefix_append _ _
  · have hleaves := call_leaves call hs
    exact ⟨hleaves.keeps, hleaves.1.fullSpans⟩

theorem reads_stream_two : ∃ s : Input,
    Run Step (ofPeer ([1, 2, 3].map Segment.single) true)
      [(.read 2 true, .returned (.bytes [1, 2]))] s ∧
    (∃ pieces, List.Forall₂ (fun a bs => Covers a.2 bs)
        [(Call.read 2 true, .returned (.bytes [1, 2]))] pieces ∧ pieces.flatten <+: [1, 2, 3]) ∧
    ((Call.skip 5 true).perform.run s).2.FullSpans := by
  have hpending : (ofPeer ([1, 2, 3].map Segment.single) true).pending = [1, 2] ++ [3] := by
    rw [ofPeer_pending]
    rfl
  obtain ⟨s', hrun, -⟩ := read_run true hpending
  have h : Run Step (ofPeer ([1, 2, 3].map Segment.single) true)
      [(.read 2 true, .returned (.bytes [1, 2]))] s' :=
    .cons ⟨Coro.bind_returned _ hrun, .inl ⟨_, rfl⟩⟩ (.nil s')
  obtain ⟨hpieces, hcalls⟩ := reads_stream ([1, 2, 3].map Segment.single) true _ s' h
  exact ⟨s', h, hpieces, (hcalls (.skip 5 true)).2⟩

end Input

end CppEvent
