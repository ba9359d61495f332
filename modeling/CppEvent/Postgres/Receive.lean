import CppEvent.Postgres.Connection

/-!
# Receiving messages

What the parts of the receive loops do to a stream of messages: the header of the next message is
read behind any number of notices (`getResponseInfo_run`), and a row that is wholly buffered is
decoded although nobody waits for it (`populateDiscarded_buffered`), while one that is not is lost
(`populateDiscarded_starved`).
-/

namespace CppEvent

open Coroutine

namespace PgConnection

abbrev pending (c : PgConnection) : Bytes := c.sock.pending

/-- From `c` to `c'` exactly `bs` was consumed, and nothing else happened to the connection. -/
def Consumes (c : PgConnection) (bs : Bytes) (c' : PgConnection) : Prop :=
  c.sock.Consumes bs c'.sock ∧ c'.queryReady = c.queryReady

namespace Consumes

variable {c c' c'' : PgConnection} {bs cs : Bytes}

theorem refl (c : PgConnection) : c.Consumes [] c := ⟨Socket.Consumes.refl _, rfl⟩

theorem trans (h : c.Consumes bs c') (h' : c'.Consumes cs c'') : c.Consumes (bs ++ cs) c'' :=
  ⟨h.1.trans h'.1, h'.2.trans h.2⟩

theorem rest_eq {rest : Bytes} (h : c.Consumes bs c') (hp : c.pending = bs ++ rest) :
    c'.pending = rest := h.1.rest_eq hp

theorem length_pending (h : c.Consumes bs c') :
    c.pending.length = bs.length + c'.pending.length := by
  rw [pending, h.1.pending_eq, List.length_append]

end Consumes

variable {α : Type}

theorem run_onSock {t : Coro Socket Exn α} {c : PgConnection} {s : Socket} {o : Outcome Exn α}
    {bs : Bytes} (h : t.run c.sock = (o, s)) (hc : c.sock.Consumes bs s) :
    ∃ c', (onSock t).run c = (o, c') ∧ c.Consumes bs c' :=
  ⟨{ c with sock := s }, Coro.run_focus h, hc, rfl⟩

theorem skip_run {c : PgConnection} {bs rest : Bytes} (h : c.pending = bs ++ rest) :
    ∃ c', (skip bs.length).run c = (.returned (bs.length : Int), c') ∧ c.Consumes bs c' := by
  obtain ⟨s, hrun, hc⟩ := Socket.skip_run true h
  exact run_onSock hrun hc

theorem skipIfAny_run {c : PgConnection} {bs rest : Bytes} (h : c.pending = bs ++ rest) :
    ∃ c', (skipIfAny bs.length).run c = (.returned (bs.length : Int), c') ∧ c.Consumes bs c' := by
  cases bs with
  | nil => exact ⟨c, rfl, Consumes.refl c⟩
  | cons b bs =>
    rw [skipIfAny, if_pos (by rw [List.length_cons]; omega)]
    exact skip_run h

/-! ## Headers -/

theorem readHeader_run {c : PgConnection} (f : Frame) {rest : Bytes}
    (h : c.pending = f.header ++ rest) :
    ∃ c', readHeader.run c = (.returned ⟨f.type, f.size⟩, c') ∧ c.Consumes f.header c' := by
  obtain ⟨s, hrun, hc⟩ := Socket.readInto_run true h
  obtain ⟨c', hrun', hc'⟩ := run_onSock hrun hc
  rw [Frame.length_header] at hrun'
  refine ⟨c', ?_, hc'⟩
  rw [readHeader, Coro.bind_returned _ hrun', Frame.decodeHeader_header, Coro.run_pure]

/-- A round skips what the notice before it left and reads a header. -/
theorem responseRound_run {c : PgConnection} (before : Bytes) (f : Frame) {rest : Bytes}
    (h : c.pending = before ++ (f.header ++ rest)) :
    ∃ c', (responseRound true before.length).run c =
        (.returned (if f.type = .noticeResponse then .inl (f.size : Int)
          else .inr ⟨f.type, f.size⟩), c') ∧ c.Consumes (before ++ f.header) c' := by
  obtain ⟨c₁, hskip, hc₁⟩ := skipIfAny_run h
  obtain ⟨c₂, hread, hc₂⟩ := readHeader_run f (hc₁.rest_eq h)
  refine ⟨c₂, ?_, hc₁.trans hc₂⟩
  rw [responseRound, Coro.bind_returned _ hskip, Coro.bind_returned _ hread]
  by_cases hn : f.type = .noticeResponse
  · rw [if_pos hn, if_pos ⟨rfl, hn⟩, Coro.run_pure]
  · rw [if_neg hn, if_neg (fun h => hn h.2), Coro.run_pure]

/-- A header and the bytes that its size has skipped. -/
abbrev Skipped := Frame × Bytes

def Skipped.bytes (p : Skipped) : Bytes := p.1.header ++ p.2

def Skipped.IsNotice (p : Skipped) : Prop :=
  p.1.type = .noticeResponse ∧ p.2.length = p.1.size

theorem length_le_skipped (skipped : List Skipped) :
    skipped.length ≤ (skipped.flatMap Skipped.bytes).length := by
  induction skipped with
  | nil => exact Nat.le_refl 0
  | cons p skipped ih =>
    simp only [List.flatMap_cons, List.length_append, List.length_cons, Skipped.bytes,
      Frame.length_header, headerSize]
    omega

theorem iterate_responseRound (skipped : List Skipped) (hskipped : ∀ p ∈ skipped, p.IsNotice)
    (m : Frame) (hm : m.type ≠ .noticeResponse) (before rest : Bytes) (c : PgConnection) (n : Nat)
    (hn : skipped.length < n)
    (h : c.pending = before ++ (skipped.flatMap Skipped.bytes ++ (m.header ++ rest))) :
    ∃ c', (Coro.iterate (responseRound true) n (before.length : Int)).run c =
        (.returned ⟨m.type, m.size⟩, c') ∧
      c.Consumes (before ++ (skipped.flatMap Skipped.bytes ++ m.header)) c' := by
  obtain ⟨n, rfl⟩ := Nat.exists_eq_succ_of_ne_zero (Nat.ne_zero_of_lt hn)
  induction skipped generalizing before c n with
  | nil =>
    obtain ⟨c', hrun, hc⟩ := responseRound_run before m h
    rw [if_neg hm] at hrun
    exact ⟨c', Coro.iterate_inr hrun, hc⟩
  | cons p skipped ih =>
    obtain ⟨hnotice, hsize⟩ := hskipped p (by simp)
    have h' : c.pending = before ++ (p.1.header ++ (p.2 ++ (skipped.flatMap Skipped.bytes ++
        (m.header ++ rest)))) := by
      rw [h, List.flatMap_cons, Skipped.bytes, List.append_assoc, List.append_assoc]
    obtain ⟨c₁, hrun, hc₁⟩ := responseRound_run before p.1 h'
    rw [if_pos hnotice, ← hsize] at hrun
    rw [← List.append_assoc] at h'
    rw [List.length_cons] at hn
    obtain ⟨n, rfl⟩ := Nat.exists_eq_succ_of_ne_zero (Nat.ne_zero_of_lt (by omega : 0 < n))
    obtain ⟨c₂, hrun₂, hc₂⟩ := ih (fun q hq => hskipped q (by simp [hq])) p.2 c₁ (hc₁.rest_eq h') n
      (by omega)
    refine ⟨c₂, by rw [Coro.iterate_inl hrun, hrun₂], ?_⟩
    have := hc₁.trans hc₂
    simpa only [List.flatMap_cons, Skipped.bytes, List.append_assoc] using this

theorem getResponseInfo_skipped (skipped : List Skipped) (hskipped : ∀ p ∈ skipped, p.IsNotice)
    (m : Frame) (hm : m.type ≠ .noticeResponse) {rest : Bytes} {c : PgConnection}
    (h : c.pending = skipped.flatMap Skipped.bytes ++ (m.header ++ rest)) :
    ∃ c', (getResponseInfo true).run c = (.returned ⟨m.type, m.size⟩, c') ∧
      c.Consumes (skipped.flatMap Skipped.bytes ++ m.header) c' := by
  refine iterate_responseRound skipped hskipped m hm [] rest c (c.pending.length + 1) ?_ h
  have := length_le_skipped skipped
  rw [h, List.length_append]
  omega

end PgConnection

/-- A notice that the code recognises and skips. -/
def Frame.IsNotice (f : Frame) : Prop := f.type = .noticeResponse ∧ 4 ≤ f.length

instance (f : Frame) : Decidable f.IsNotice :=
  inferInstanceAs (Decidable (f.type = .noticeResponse ∧ 4 ≤ f.length))

theorem Frame.exists_message {fs : List Frame}
    (hfs : ∀ f ∈ fs, f.type = .noticeResponse → 4 ≤ f.length)
    (hm : ∃ m ∈ fs, m.type ≠ .noticeResponse) : ∃ ns m gs, fs = ns ++ m :: gs ∧
      (∀ n ∈ ns, n.IsNotice) ∧ m.type ≠ .noticeResponse := by
  induction fs with
  | nil => simp at hm
  | cons f fs ih =>
    obtain ⟨hf, hfs⟩ := List.forall_mem_cons.mp hfs
    by_cases hn : f.type = .noticeResponse
    · have hm' : ∃ m ∈ fs, m.type ≠ .noticeResponse := by
        obtain ⟨m, hmem, hm⟩ := hm
        rcases List.mem_cons.mp hmem with rfl | hmem
        · exact absurd hn hm
        · exact ⟨m, hmem, hm⟩
      obtain ⟨ns, m, gs, rfl, hns, hm⟩ := ih hfs hm'
      exact ⟨f :: ns, m, gs, rfl, List.forall_mem_cons.mpr ⟨⟨hn, hf hn⟩, hns⟩, hm⟩
    · exact ⟨[], f, fs, rfl, by simp, hn⟩

namespace PgConnection

theorem getResponseInfo_run {ns : List Frame} (hns : ∀ n ∈ ns, n.IsNotice) {m : Frame}
    (hm : m.type ≠ .noticeResponse) {rest : Bytes} {c : PgConnection}
    (h : c.pending = ns.flatMap Frame.wire ++ (m.header ++ rest)) :
    ∃ c', (getResponseInfo true).run c = (.returned ⟨m.type, m.size⟩, c') ∧
      c.Consumes (ns.flatMap Frame.wire ++ m.header) c' := by
  have hbytes : (ns.map fun n => (n, n.payload)).flatMap Skipped.bytes = ns.flatMap Frame.wire := by
    rw [List.flatMap_map]
    rfl
  rw [← hbytes] at h ⊢
  refine getResponseInfo_skipped _ (fun p hp => ?_) m hm h
  obtain ⟨n, hn, rfl⟩ := List.mem_map.mp hp
  exact ⟨(hns n hn).1, (n.size_eq (hns n hn).2).symm⟩

/-! ## Rows and tags -/

/-- What `populate_result` makes of a payload, if it stays inside it. -/
def populated (type : ResponseType) (payload : Bytes) (result : PgResult) : Option PgResult :=
  match type with
  | .rowDescription =>
      (decodeRowDescription payload).map fun cols => cols.foldl PgResult.addColumn result
  | .dataRow => (decodeDataRow payload).map result.addRow
  | _ => some result

theorem readPayload_run {c : PgConnection} {f : Frame} (h4 : 4 ≤ f.length) {rest : Bytes}
    (h : c.pending = f.payload ++ rest) :
    ∃ c', (onSock (Socket.readInto f.size true)).run c = (.returned f.payload, c') ∧
      c.Consumes f.payload c' := by
  obtain ⟨s, hrun, hc⟩ := Socket.readInto_run true h
  rw [f.size_eq h4]
  exact run_onSock hrun hc

theorem populateResult_run {c : PgConnection} {f : Frame}
    (hrow : f.type = .rowDescription ∨ f.type = .dataRow) (h4 : 4 ≤ f.length) (result : PgResult)
    {rest : Bytes} (h : c.pending = f.payload ++ rest) :
    ∃ c', (populateResult ⟨f.type, f.size⟩ result).run c =
        ((populated f.type f.payload result).elim .undefined .returned, c') ∧
      c.Consumes f.payload c' := by
  obtain ⟨c', hread, hc⟩ := readPayload_run h4 h
  refine ⟨c', ?_, hc⟩
  rcases hrow with ht | ht
  · simp only [populateResult, populated, ht]
    rw [Coro.bind_returned _ hread]
    cases decodeRowDescription f.payload <;> rfl
  · simp only [populateResult, populated, ht]
    rw [Coro.bind_returned _ hread]
    cases decodeDataRow f.payload <;> rfl

theorem Consumes.withRecvs {c c' : PgConnection} {bs : Bytes} (h : (c.withRecvs []).Consumes bs c') :
    c.Consumes bs (c'.withRecvs c.sock.input.recvs) := by
  obtain ⟨⟨⟨hflight, segments, hrecvs, hunread⟩, hout, hshut⟩, hready⟩ := h
  obtain ⟨hnil, -⟩ := List.append_eq_nil_iff.mp hrecvs.symm
  rw [List.map_eq_nil_iff] at hnil
  subst hnil
  exact ⟨⟨⟨hflight, [], rfl, hunread⟩, hout, hshut⟩, hready⟩

theorem populateDiscarded_buffered {c : PgConnection} {f : Frame}
    (hrow : f.type = .rowDescription ∨ f.type = .dataRow) (h4 : 4 ≤ f.length) (result : PgResult)
    {rest : Bytes} (h : c.sock.input.buffer.unread = f.payload ++ rest) :
    ∃ c', (populateDiscarded ⟨f.type, f.size⟩ result).run c =
        ((populated f.type f.payload result).elim .undefined .returned, c') ∧
      c.Consumes f.payload c' := by
  have hpending : (c.withRecvs []).pending = f.payload ++ rest := by
    rw [← h]
    exact List.append_nil _
  obtain ⟨c', hrun, hc⟩ := populateResult_run hrow h4 result hpending
  refine ⟨c'.withRecvs c.sock.input.recvs, ?_, hc.withRecvs⟩
  have hdiscard : (discard (populateResult ⟨f.type, f.size⟩ result)).run c =
      ((populated f.type f.payload result).elim .undefined fun r => .returned (some r),
        c'.withRecvs c.sock.input.recvs) := by
    simp only [discard, hrun]
    cases populated f.type f.payload result <;> rfl
  rw [populateDiscarded, Coro.run_bind, hdiscard]
  cases populated f.type f.payload result <;> rfl

theorem populateDiscarded_starved {c : PgConnection} {f : Frame}
    (hrow : f.type = .rowDescription ∨ f.type = .dataRow) (result : PgResult)
    (h : c.sock.input.buffer.unread.length < f.size) :
    ∃ c', (populateDiscarded ⟨f.type, f.size⟩ result).run c = (.returned result, c') ∧
      c'.sock.input.buffer.unread = [] ∧ c'.sock.input.recvs = c.sock.input.recvs ∧
      c'.sock.output = c.sock.output ∧ c'.queryReady = c.queryReady := by
  obtain ⟨i, hrun, _, hunread, _⟩ :=
    Input.consume_starved "socket read" true (s := (c.withRecvs []).sock.input) rfl h
  have hread : (onSock (Socket.readInto f.size true)).run (c.withRecvs []) =
      (.suspended, { c with sock.input := i }) := by
    have hinput : (Input.readInto f.size true).run (c.withRecvs []).sock.input =
        (.suspended, i) := by
      rw [Input.readInto, if_neg (by omega), Int.toNat_natCast, hrun]
    rw [onSock, Socket.readInto, Socket.onInput, Coro.run_focus (Coro.run_focus hinput)]
    rfl
  have hpopulate : (populateResult ⟨f.type, f.size⟩ result).run (c.withRecvs []) =
      (.suspended, { c with sock.input := i }) := by
    rcases hrow with ht | ht
    · simp only [populateResult, ht]
      rw [Coro.bind_suspended _ hread]
    · simp only [populateResult, ht]
      rw [Coro.bind_suspended _ hread]
  refine ⟨{ c with sock.input := { i with recvs := c.sock.input.recvs } }, ?_, hunread, rfl, rfl,
    rfl⟩
  have hdiscard : (discard (populateResult ⟨f.type, f.size⟩ result)).run c =
      (.returned none, { c with sock.input := { i with recvs := c.sock.input.recvs } }) := by
    simp only [discard, hpopulate]
    rfl
  rw [populateDiscarded, Coro.bind_returned _ hdiscard]
  rfl

theorem readTag_run {c : PgConnection} {text rest : Bytes} (h : c.pending = text ++ rest) :
    ∃ c', (readTag text.length).run c =
        (if text = [] then .undefined else .returned text.dropLast, c') ∧ c.Consumes text c' := by
  obtain ⟨s, hrun, hc⟩ := Socket.read_run true h
  obtain ⟨c', hrun', hc'⟩ := run_onSock hrun hc
  refine ⟨c', ?_, hc'⟩
  rw [readTag, Coro.bind_returned _ hrun']
  by_cases ht : text = [] <;> simp [ht]

end PgConnection

/-! ## Messages that arrive in one piece -/

namespace Frame

/-- The message can be in the buffer as a whole when its header has been read. -/
def Fits (f : Frame) : Prop := f.payload.length < socketBufferSize

instance (f : Frame) : Decidable f.Fits :=
  inferInstanceAs (Decidable (f.payload.length < socketBufferSize))

/-- Of the message that starts at `offset`, everything is buffered once its header has been read:
nothing that arrives ends between the two. -/
def BufferedAt (f : Frame) (s : Input) (offset : Nat) : Prop :=
  ∀ x, s.EndsAt x → ¬ (offset + headerSize ≤ x ∧ x < offset + f.wire.length)

theorem BufferedAt.payload {f : Frame} {c c' : PgConnection} {bs rest : Bytes}
    (hbuf : f.BufferedAt c.sock.input bs.length) (hc : c.Consumes (bs ++ f.header) c')
    (hp : c'.pending = f.payload ++ rest) :
    ∃ more, c'.sock.input.buffer.unread = f.payload ++ more := by
  have hle : f.payload.length ≤ c'.sock.input.buffer.unread.length := by
    refine hc.1.1.buffered fun x hx hin => hbuf x hx ?_
    rw [List.length_append, length_header] at hin
    rw [length_wire]
    omega
  rcases List.append_eq_append_iff.mp hp.symm with ⟨t, hu, _⟩ | ⟨t, hu, _⟩
  · exact ⟨t, hu⟩
  · rw [hu, List.length_append] at hle
    refine ⟨[], ?_⟩
    rw [hu, List.eq_nil_of_length_eq_zero (by omega : t.length = 0), List.append_nil,
      List.append_nil]

end Frame

namespace PgConnection

/-- These messages are next, each of them wholly buffered once its header has been read. -/
structure Incoming (c : PgConnection) (fs : List Frame) (rest : Bytes) : Prop where
  pending : c.pending = fs.flatMap Frame.wire ++ rest
  buffered : ∀ pre f post, fs = pre ++ f :: post →
    f.BufferedAt c.sock.input (pre.flatMap Frame.wire).length

/-- The header of a message has been read, its payload is buffered, and these messages follow. -/
structure Delivers (c : PgConnection) (m : Frame) (fs : List Frame) (rest : Bytes) : Prop where
  buffered : ∃ more, c.sock.input.buffer.unread = m.payload ++ more
  pending : c.pending = m.payload ++ (fs.flatMap Frame.wire ++ rest)
  next : ∀ c', c.Consumes m.payload c' → c'.Incoming fs rest

theorem Incoming.drop {c c' : PgConnection} {fs gs : List Frame} {rest : Bytes}
    (h : c.Incoming (fs ++ gs) rest) (hc : c.Consumes (fs.flatMap Frame.wire) c') :
    c'.Incoming gs rest where
  pending := hc.rest_eq (by rw [h.pending, List.flatMap_append, List.append_assoc])
  buffered pre f post hgs x hx hin := by
    refine h.buffered (fs ++ pre) f post (by rw [hgs, List.append_assoc]) _ (hc.1.1.endsAt hx) ?_
    rw [List.flatMap_append, List.length_append]
    omega

theorem Incoming.congr {c c' : PgConnection} {fs : List Frame} {rest : Bytes}
    (h : c.Incoming fs rest) (hinput : c'.sock.input = c.sock.input) : c'.Incoming fs rest where
  pending := by
    show c'.sock.input.pending = _
    rw [hinput]
    exact h.pending
  buffered := by
    rw [hinput]
    exact h.buffered

/-- The header of the next message is read, behind any notices; its payload and the other messages
follow. -/
theorem getResponseInfo_next {c : PgConnection} {ns fs : List Frame} {m : Frame} {rest : Bytes}
    (hns : ∀ n ∈ ns, n.IsNotice) (hm : m.type ≠ .noticeResponse)
    (h : c.pending = (ns ++ m :: fs).flatMap Frame.wire ++ rest) :
    ∃ c', (getResponseInfo true).run c = (.returned ⟨m.type, m.size⟩, c') ∧
      c.Consumes (ns.flatMap Frame.wire ++ m.header) c' ∧
      c'.pending = m.payload ++ (fs.flatMap Frame.wire ++ rest) ∧
      ∀ c'', c'.Consumes m.payload c'' → c.Consumes ((ns ++ [m]).flatMap Frame.wire) c'' := by
  have hpending : c.pending = ns.flatMap Frame.wire ++
      (m.header ++ (m.payload ++ (fs.flatMap Frame.wire ++ rest))) := by
    rw [h]
    simp only [List.flatMap_append, List.flatMap_cons, Frame.wire, List.append_assoc]
  obtain ⟨c', hrun, hc⟩ := getResponseInfo_run hns hm hpending
  refine ⟨c', hrun, hc, hc.rest_eq (by rw [hpending, List.append_assoc]), fun c'' hc'' => ?_⟩
  have htotal := hc.trans hc''
  rw [List.append_assoc] at htotal
  simpa only [List.flatMap_append, List.flatMap_singleton, Frame.wire] using htotal

/-- Behind any notices the next message is delivered. -/
theorem Incoming.receive {c : PgConnection} {ns fs : List Frame} {m : Frame} {rest : Bytes}
    (h : c.Incoming (ns ++ m :: fs) rest) (hns : ∀ n ∈ ns, n.IsNotice)
    (hm : m.type ≠ .noticeResponse) :
    ∃ c', (getResponseInfo true).run c = (.returned ⟨m.type, m.size⟩, c') ∧
      c.Consumes (ns.flatMap Frame.wire ++ m.header) c' ∧ c'.Delivers m fs rest := by
  obtain ⟨c', hrun, hc, hrest, hnext⟩ := getResponseInfo_next hns hm h.pending
  refine ⟨c', hrun, hc, (h.buffered ns m fs rfl).payload hc hrest, hrest, fun c'' hc'' => ?_⟩
  refine Incoming.drop ?_ (hnext c'' hc'')
  rwa [List.append_assoc, List.singleton_append]

end PgConnection

namespace Frame

theorem length_second_le (f : Frame) (h : f.Fits) :
    (f.header.drop 4 ++ f.payload).length ≤ socketBufferSize := by
  have : f.payload.length < socketBufferSize := h
  rw [List.length_append, List.length_drop, length_header, headerSize]
  omega

/-- The message in two pieces, cut before the last byte of its header. -/
def segments (f : Frame) (h : f.Fits) : List Segment :=
  [{ bytes := f.header.take 4
     nonempty := by simp [header]
     length_le := by simp [header, length_writeU32Be, socketBufferSize] },
    { bytes := f.header.drop 4 ++ f.payload
      nonempty := by simp [header, writeU32Be, writeU16Be]
      length_le := f.length_second_le h }]

theorem flatMap_segments (f : Frame) (h : f.Fits) :
    (f.segments h).flatMap Segment.bytes = f.wire := by
  simp only [segments, List.flatMap_cons, List.flatMap_nil, List.append_nil]
  rw [← List.append_assoc, List.take_append_drop, wire]

def cut : (fs : List Frame) → (∀ f ∈ fs, f.Fits) → List Segment
  | [], _ => []
  | f :: fs, h => f.segments (h f List.mem_cons_self) ++ cut fs fun g hg => h g (by simp [hg])

end Frame

theorem cut_whole (fs : List Frame) (hfits : ∀ f ∈ fs, f.Fits) :
    (Frame.cut fs hfits).flatMap Segment.bytes = fs.flatMap Frame.wire ∧
      ∀ pre f post, fs = pre ++ f :: post →
        ∀ x, (Segment.sizes (Frame.cut fs hfits)).IsBoundary x →
          ¬ ((pre.flatMap Frame.wire).length + headerSize ≤ x ∧
            x < (pre.flatMap Frame.wire).length + f.wire.length) := by
  induction fs with
  | nil => exact ⟨rfl, fun pre f post h => by simp at h⟩
  | cons g fs ih =>
    obtain ⟨hcut, hwhole⟩ := ih fun f hf => hfits f (by simp [hf])
    have hg : g.Fits := hfits g (by simp)
    rw [Frame.cut]
    refine ⟨?_, ?_⟩
    · rw [List.flatMap_append, Frame.flatMap_segments, hcut, List.flatMap_cons]
    -- the boundaries are 0, 4, and those of the rest behind the first message
    have hsizes : ∀ cut, Segment.sizes (g.segments hg ++ cut) =
        4 :: (1 + g.payload.length) :: Segment.sizes cut := by
      intro cut
      simp [Segment.sizes, Frame.segments, Frame.header, length_writeU32Be, Nat.add_comm]
    have hlen : g.wire.length = headerSize + g.payload.length := g.length_wire
    intro pre f post hfs x hx
    rw [hsizes, List.isBoundary_cons] at hx
    rcases List.append_eq_cons_iff.mp hfs.symm with ⟨rfl, hf⟩ | ⟨pre', rfl, hfs'⟩
    · obtain ⟨rfl, rfl⟩ := List.cons.inj hf
      rw [List.flatMap_nil, List.length_nil, hlen, headerSize]
      rcases hx with rfl | ⟨y, hy, rfl⟩
      · omega
      · rcases List.isBoundary_cons.mp hy with rfl | ⟨z, hz, rfl⟩ <;> omega
    · rw [List.flatMap_cons, List.length_append, hlen, headerSize]
      rcases hx with rfl | ⟨y, hy, rfl⟩
      · omega
      · rcases List.isBoundary_cons.mp hy with rfl | ⟨z, hz, rfl⟩
        · omega
        · have := hwhole pre' f post hfs' z hz
          rw [headerSize] at this
          omega

/-- A socket on which these messages are next, with anything behind them. -/
def Socket.incoming (fs : List Frame) (hfits : ∀ f ∈ fs, f.Fits) (rest : Bytes) : Socket :=
  Socket.new ((Frame.cut fs hfits ++ rest.map Segment.single).map .data) fun _ => .accepted 0

theorem incoming_run (fs : List Frame) (hfits : ∀ f ∈ fs, f.Fits) (rest : Bytes) (ready : Bool) :
    PgConnection.Incoming ⟨Socket.incoming fs hfits rest, ready⟩ fs rest := by
  obtain ⟨hcut, hwhole⟩ := cut_whole fs hfits
  have hbytes : (Frame.cut fs hfits ++ rest.map Segment.single).flatMap Segment.bytes =
      fs.flatMap Frame.wire ++ rest := by
    rw [List.flatMap_append, hcut, Segment.flatMap_single]
  have hpending : (Socket.incoming fs hfits rest).pending = fs.flatMap Frame.wire ++ rest := by
    rw [Socket.incoming, Socket.pending_new, Input.carried_data, hbytes]
  refine ⟨hpending, ?_⟩
  intro pre f post hfs x hx hin
  have hx' := Input.isBoundary_of_endsAt (ByteBuffer.unread_empty _) rfl hx
  rw [Segment.sizes, List.map_append] at hx'
  rcases List.isBoundary_of_append hx' with hx | hx
  · exact hwhole pre f post hfs x hx hin
  · change (Segment.sizes (Frame.cut fs hfits)).sum ≤ x at hx
    rw [Segment.sum_sizes, hcut] at hx
    simp only [hfs, List.flatMap_append, List.flatMap_cons, List.length_append] at hx
    omega

theorem exists_incoming (fs : List Frame) (hfits : ∀ f ∈ fs, f.Fits) (rest : Bytes) :
    ∃ sock : Socket, sock.output.SendsSucceed ∧
      ∀ ready, PgConnection.Incoming { sock := sock, queryReady := ready } fs rest :=
  ⟨Socket.incoming fs hfits rest, fun _ => ⟨0, rfl⟩, incoming_run fs hfits rest⟩

end CppEvent
