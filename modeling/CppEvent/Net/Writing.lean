import CppEvent.Library.Transition
import CppEvent.Net.Socket

/-!
# Writing to a socket

Any sequence of writes and flushes on a socket, whatever the kernel makes of its sends: what the kernel
has and what the buffer holds is what the calls accepted, in order (`writes_stream`).
-/

namespace CppEvent

open Coroutine Transition

namespace Output

/-- From `s` to `s'` exactly `k` sends completed, and each of them took some of its span. -/
def Took (k : Nat) (s s' : Output) : Prop :=
  (∀ i < k, ∃ extra, s.sends i = .accepted extra) ∧ s'.sends = fun i => s.sends (i + k)

/-- How the sends of a call left it: it returns if all of them took something, and throws where one
failed. -/
def Drains (s : Output) (o : Outcome Exn Unit) (s' : Output) : Prop :=
  ∃ k s₁, Took k s s₁ ∧
    match o with
    | .returned _ => s'.sends = s₁.sends
    | .threw e => ∃ errnum pos, s₁.sends 0 = .failed errnum pos ∧
        e = .systemError "socket flush failed: " errnum ∧ s'.sends = fun i => s₁.sends (i + 1)
    | .suspended => s₁.sends 0 = .stalled
    | .undefined => False

theorem Took.refl (s : Output) : Took 0 s s := ⟨fun _ h => absurd h (Nat.not_lt_zero _), rfl⟩

theorem Took.trans {k k' : Nat} {s s' s'' : Output} (h : Took k s s') (h' : Took k' s' s'') :
    Took (k + k') s s'' := by
  refine ⟨fun i hi => ?_, ?_⟩
  · rcases Nat.lt_or_ge i k with hlt | hge
    · exact h.1 i hlt
    · obtain ⟨extra, he⟩ := h'.1 (i - k) (by omega)
      rw [h.2] at he
      simp only [Nat.sub_add_cancel hge] at he
      exact ⟨extra, he⟩
  · rw [h'.2, h.2]
    funext i
    rw [show i + (k + k') = i + k' + k by omega]

theorem Took.drains {k : Nat} {s s' s'' : Output} {o : Outcome Exn Unit} (h : Took k s s')
    (h' : Drains s' o s'') : Drains s o s'' := by
  obtain ⟨k', s₁, htook, ho⟩ := h'
  exact ⟨k + k', s₁, h.trans htook, ho⟩

/-- A send moves a front of what is buffered to the kernel, or moves nothing. -/
theorem sendChunk_leaves {s : Output} (hu : s.buffer.unread ≠ []) :
    ∃ s', s'.written = s.written ∧
      ((∃ n : Nat, sendChunk.run s = (.returned (n : Int), s') ∧ Took 1 s s' ∧
          s'.buffer.available < s.buffer.available) ∨
        (∃ (errnum : Nat) (pos : 0 < errnum), sendChunk.run s = (.returned (-(errnum : Int)), s') ∧
          s.sends 0 = .failed errnum pos ∧ s'.sends = fun i => s.sends (i + 1)) ∨
        sendChunk.run s = (.suspended, s') ∧ s.sends 0 = .stalled) := by
  rcases hs : s.sends 0 with extra | ⟨errnum, pos⟩ | _
  · let r := s.buffer.read (extra + 1)
    refine ⟨⟨r.2, fun i => s.sends (i + 1), s.sent ++ r.1⟩, ?_, .inl ⟨r.1.length, ?_, ⟨?_, rfl⟩, ?_⟩⟩
    · simp [r, written, ByteBuffer.read_fst, ByteBuffer.unread_read]
    · simp only [sendChunk, hs]
      rfl
    · intro i hi
      obtain rfl : i = 0 := by omega
      exact ⟨extra, hs⟩
    · have hpos := List.length_pos_iff.mpr hu
      simp only [r, ← ByteBuffer.length_unread, ByteBuffer.unread_read, List.length_drop]
      omega
  · refine ⟨{ s with sends := fun i => s.sends (i + 1) }, rfl, .inr (.inl ⟨errnum, pos, ?_, rfl, rfl⟩)⟩
    simp only [sendChunk, hs]
  · refine ⟨s, rfl, .inr (.inr ⟨?_, rfl⟩)⟩
    simp only [sendChunk, hs]

/-- A flush neither loses nor adds a byte, and returns with the buffer drained. -/
theorem flush_leaves (s : Output) :
    ∃ o s', flush.run s = (o, s') ∧ s'.written = s.written ∧ Drains s o s' ∧
      (o = .returned () → s'.buffer.unread = []) := by
  apply Coro.loop_leaves (fun s => s.buffer.available + 1) flushRound
    (fun _ s₁ => s₁.written = s.written ∧ ∃ k, Took k s s₁)
    (fun o s' => s'.written = s.written ∧ Drains s o s' ∧ (o = .returned () → s'.buffer.unread = []))
    (fun _ s₁ => s₁.buffer.available) () s ⟨rfl, 0, Took.refl s⟩ (Nat.lt_succ_self _)
  rintro ⟨⟩ s₁ ⟨hw, k, htook⟩
  by_cases hu : s₁.buffer.unread = []
  · refine .inr ⟨.returned (.inr ()), s₁, .returned (), ?_, rfl, hw, ⟨k, s₁, htook, rfl⟩, fun _ => hu⟩
    rw [flushRound, Coro.run_get_bind, if_pos hu, Coro.run_pure]
  · rw [flushRound, Coro.run_get_bind, if_neg hu]
    obtain ⟨s₂, hw₂, ⟨n, hrun, htook₂, hless⟩ | ⟨errnum, pos, hrun, hfailed, hsends⟩ |
      ⟨hrun, hstalled⟩⟩ := sendChunk_leaves hu
    · refine .inl ⟨(), s₂, ?_, ⟨hw₂.trans hw, k + 1, htook.trans htook₂⟩, hless⟩
      rw [Coro.bind_returned _ hrun, if_neg (by omega), Coro.run_pure]
    · refine .inr ⟨.threw (.systemError "socket flush failed: " errnum), s₂, _, ?_, rfl,
        hw₂.trans hw, ⟨k, s₁, htook, errnum, pos, hfailed, rfl, hsends⟩, fun h => by cases h⟩
      rw [Coro.bind_returned _ hrun, if_pos (by omega), Coro.run_fail]
      simp
    · exact .inr ⟨_, s₂, .suspended, Coro.bind_suspended _ hrun, rfl, hw₂.trans hw,
        ⟨k, s₁, htook, hstalled⟩, fun h => by cases h⟩

theorem bufferWrite_leaves (src : Bytes) (s : Output) :
    ∃ s', (bufferWrite src).run s = (.returned (min s.buffer.capacity src.length), s') ∧
      s'.sends = s.sends ∧ s'.written = s.written ++ src.take (min s.buffer.capacity src.length) := by
  refine ⟨{ s with buffer := (s.buffer.write src).2 }, rfl, rfl, ?_⟩
  simp only [written, ByteBuffer.unread_write, ByteBuffer.write_fst, List.append_assoc]

/-- A write accepts a front of its source, and returns with all of it accepted. -/
theorem write_leaves (src : Bytes) (s : Output) :
    ∃ o s', (write src).run s = (o, s') ∧ Drains s o s' ∧ ∃ taken, taken <+: src ∧
      s'.written = s.written ++ taken ∧ (o = .returned () → taken = src) := by
  obtain ⟨s₀, hrun₀, hsends₀, hw₀⟩ := bufferWrite_leaves src s
  rw [write, Coro.bind_returned _ hrun₀]
  -- between rounds: what was accepted and what is left is the source
  apply Coro.loop_leaves (fun _ => src.length + 1) writeRound
    (fun left s₁ => ∃ taken k, src = taken ++ left ∧ s₁.written = s.written ++ taken ∧ Took k s s₁)
    (fun o s' => Drains s o s' ∧ ∃ taken, taken <+: src ∧ s'.written = s.written ++ taken ∧
      (o = .returned () → taken = src))
    (fun left _ => left.length) _ s₀
  · refine ⟨_, 0, (List.take_append_drop _ _).symm, hw₀, fun i h => absurd h (Nat.not_lt_zero _), ?_⟩
    exact hsends₀
  · rw [List.length_drop]
    omega
  · rintro left s₁ ⟨taken, k, hsrc, hw, htook⟩
    by_cases hl : left = []
    · refine .inr ⟨.returned (.inr ()), s₁, .returned (), ?_, rfl, ⟨k, s₁, htook, rfl⟩, taken, ?_, hw,
        fun _ => ?_⟩
      · rw [writeRound, if_pos hl, Coro.run_pure]
      · exact ⟨left, hsrc.symm⟩
      · rw [hsrc, hl, List.append_nil]
    · rw [writeRound, if_neg hl]
      obtain ⟨o, s₂, hrun₂, hw₂, hdrains₂, hu₂⟩ := flush_leaves s₁
      cases o with
      | returned u =>
        obtain ⟨s₃, hrun₃, hsends₃, hw₃⟩ := bufferWrite_leaves left s₂
        obtain ⟨k', s₁', htook', hsends₂⟩ := hdrains₂
        have hsends₂ : s₂.sends = s₁'.sends := hsends₂
        refine .inl ⟨left.drop (min s₂.buffer.capacity left.length), s₃, ?_,
          ⟨taken ++ left.take (min s₂.buffer.capacity left.length), k + k', ?_, ?_,
            htook.trans ⟨htook'.1, ?_⟩⟩, ?_⟩
        · rw [Coro.bind_returned _ hrun₂, Coro.bind_returned _ hrun₃, Coro.run_pure]
        · rw [List.append_assoc, List.take_append_drop, hsrc]
        · rw [hw₃, hw₂, hw, List.append_assoc]
        · rw [hsends₃, hsends₂, htook'.2]
        · have hcap := ByteBuffer.capacity_of_unread_nil (hu₂ rfl)
          have hpos := List.length_pos_iff.mpr hl
          simp only [List.length_drop, hcap, socketBufferSize]
          omega
      | threw e =>
        exact .inr ⟨_, s₂, .threw e, Coro.bind_threw _ hrun₂, rfl, htook.drains hdrains₂, taken,
          ⟨left, hsrc.symm⟩, hw₂.trans hw, fun h => by cases h⟩
      | suspended =>
        exact .inr ⟨_, s₂, .suspended, Coro.bind_suspended _ hrun₂, rfl, htook.drains hdrains₂,
          taken, ⟨left, hsrc.symm⟩, hw₂.trans hw, fun h => by cases h⟩
      | undefined => exact hdrains₂.choose_spec.choose_spec.2.elim

/-! ## Runs -/

inductive Call where
  | write (src : Bytes)
  | flush

def Call.perform : Call → Coro Output Exn Unit
  | .write src => Output.write src
  | .flush => Output.flush

/-- What a call that left off so has accepted of the data it was given. -/
def Accepts : Call → Outcome Exn Unit → Bytes → Prop
  | .write src, .returned _, bs => bs = src
  | .write src, _, bs => bs <+: src
  | .flush, _, bs => bs = []

def Step (s : Output) (a : Call × Outcome Exn Unit) (s' : Output) : Prop :=
  a.1.perform.run s = (a.2, s') ∧ (a.2 = .returned () ∨ ∃ e, a.2 = .threw e)

/-- The socket that was just connected, with what the kernel is going to make of its sends. -/
def ofPeer (sends : Nat → SendCompletion) : Output where
  buffer := ByteBuffer.empty socketBufferSize
  sends := sends
  sent := []

theorem call_leaves (call : Call) (s : Output) :
    ∃ o s', call.perform.run s = (o, s') ∧ Drains s o s' ∧
      (∃ bs, Accepts call o bs ∧ s'.written = s.written ++ bs) ∧
      (call = .flush → o = .returned () → s'.buffer.unread = []) := by
  cases call with
  | write src =>
    obtain ⟨o, s', hrun, hdrains, taken, hprefix, hw, hall⟩ := write_leaves src s
    refine ⟨o, s', hrun, hdrains, ⟨taken, ?_, hw⟩, fun h => by cases h⟩
    cases o with
    | returned u => exact hall rfl
    | threw e => exact hprefix
    | suspended => exact hprefix
    | undefined => exact hprefix
  | flush =>
    obtain ⟨o, s', hrun, hw, hdrains, hu⟩ := flush_leaves s
    refine ⟨o, s', hrun, hdrains, ⟨[], ?_, ?_⟩, fun _ => hu⟩
    · cases o <;> rfl
    · rw [hw, List.append_nil]

/-- A call ends if every send completes, and returns if none fails. -/
theorem Drains.ends {s s' : Output} {o : Outcome Exn Unit} (h : Drains s o s') :
    ((∀ i, s.sends i ≠ .stalled) → o = .returned () ∨ ∃ e, o = .threw e) ∧
      ((∀ i, ∃ extra, s.sends i = .accepted extra) → o = .returned ()) := by
  obtain ⟨k, s₁, ⟨-, hsends⟩, ho⟩ := h
  have hnext : s₁.sends 0 = s.sends (0 + k) := by rw [hsends]
  cases o with
  | returned u => exact ⟨fun _ => .inl rfl, fun _ => rfl⟩
  | threw e =>
    refine ⟨fun _ => .inr ⟨e, rfl⟩, fun hall => ?_⟩
    obtain ⟨errnum, pos, hfailed, -⟩ := ho
    obtain ⟨extra, he⟩ := hall (0 + k)
    rw [hnext, he] at hfailed
    cases hfailed
  | suspended =>
    have ho : s₁.sends 0 = .stalled := ho
    rw [hnext] at ho
    refine ⟨fun hne => absurd ho (hne _), fun hall => ?_⟩
    obtain ⟨extra, he⟩ := hall (0 + k)
    rw [he] at ho
    cases ho
  | undefined => exact ho.elim

theorem written_of_run {sends : Nat → SendCompletion} {s : Output}
    {as : List (Call × Outcome Exn Unit)} (h : Run Step (ofPeer sends) as s) :
    ∃ pieces, List.Forall₂ (fun a bs => Accepts a.1 a.2 bs) as pieces ∧
      s.written = pieces.flatten := by
  apply h.trace_invariant (fun as s => ∃ pieces,
    List.Forall₂ (fun a bs => Accepts a.1 a.2 bs) as pieces ∧ s.written = pieces.flatten)
  · rintro as s ⟨call, o⟩ s' ⟨pieces, hpieces, hw⟩ ⟨hrun, -⟩
    obtain ⟨o', s'', hrun', -, ⟨bs, haccepts, hw'⟩, -⟩ := call_leaves call s
    obtain ⟨rfl, rfl⟩ := Prod.mk.inj (hrun'.symm.trans hrun)
    refine ⟨pieces ++ [bs], List.rel_append hpieces (.cons haccepts .nil), ?_⟩
    rw [hw', hw, List.flatten_append]
    simp
  · exact ⟨[], .nil, rfl⟩

/-- However many bytes each send takes, and whichever of them fail, whatever writes and flushes are
called one after the other: what was sent and what is buffered is, in order, the data that the calls
accepted. A call throws exactly at a failed send; a write that returns has accepted all of its data, and
a flush that returns has drained the buffer. -/
theorem writes_stream (sends : Nat → SendCompletion) (as : List (Call × Outcome Exn Unit))
    (s : Output) (h : Run Step (ofPeer sends) as s) :
    (∃ pieces, List.Forall₂ (fun a bs => Accepts a.1 a.2 bs) as pieces ∧
      s.sent ++ s.buffer.unread = pieces.flatten) ∧
    ∀ call : Call, ∃ o s' bs, call.perform.run s = (o, s') ∧ Drains s o s' ∧ Accepts call o bs ∧
      s'.sent ++ s'.buffer.unread = s.sent ++ s.buffer.unread ++ bs ∧
      (call = .flush → o = .returned () → s'.buffer.unread = []) ∧
      ((∀ i, s.sends i ≠ .stalled) → o = .returned () ∨ ∃ e, o = .threw e) ∧
      ((∀ i, ∃ extra, s.sends i = .accepted extra) → o = .returned ()) := by
  refine ⟨written_of_run h, fun call => ?_⟩
  obtain ⟨o, s', hrun, hdrains, ⟨bs, haccepts, hw⟩, hflush⟩ := call_leaves call s
  exact ⟨o, s', bs, hrun, hdrains, haccepts, hw, hflush, hdrains.ends⟩

theorem writes_stream_two : ∃ s : Output,
    Run Step (ofPeer fun _ => .accepted 1) [(.write [1, 2, 3], .returned ())] s ∧
    s.sent ++ s.buffer.unread = [1, 2, 3] ∧
    ∃ s', flush.run s = (.returned (), s') ∧ s'.sent = [1, 2, 3] := by
  have hsends : SendsSucceed (ofPeer fun _ => .accepted 1) := fun _ => ⟨1, rfl⟩
  obtain ⟨s, hrun, hs, -⟩ := write_run hsends [1, 2, 3]
  have h : Run Step (ofPeer fun _ => .accepted 1) [(.write [1, 2, 3], .returned ())] s :=
    .cons ⟨hrun, .inl rfl⟩ (.nil s)
  obtain ⟨⟨pieces, hpieces, hw⟩, hcalls⟩ := writes_stream (fun _ => .accepted 1) _ s h
  obtain ⟨o, s', bs, hflush, -, haccepts, hw', hdrained, -, hreturns⟩ := hcalls .flush
  obtain rfl : o = .returned () := hreturns hs
  obtain rfl : bs = [] := haccepts
  cases hpieces with
  | cons haccepts hnil =>
    cases hnil
    obtain rfl := haccepts
    refine ⟨s, h, hw, s', hflush, ?_⟩
    rwa [hdrained rfl rfl, hw, List.append_nil] at hw'

end Output

end CppEvent
