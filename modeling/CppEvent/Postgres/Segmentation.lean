import CppEvent.Postgres.Query

/-!
# How a reply is cut

`query` awaits everything that it reads, but for the rows. What it makes of a reply is therefore up
to the messages alone (`PgResults.answered`) as long as every row is buffered once its header has
been read, however the rest is cut (`query_answered`). Of a reply that comes byte by byte it decodes
no row at all (`query_trickles`).
-/

namespace CppEvent

open Coroutine

namespace Frame

/-- A message that is decoded by a task that nobody awaits. -/
def IsRow (f : Frame) : Prop := f.type = .rowDescription ∨ f.type = .dataRow

instance (f : Frame) : Decidable f.IsRow :=
  inferInstanceAs (Decidable (f.type = .rowDescription ∨ f.type = .dataRow))

/-- A complete message of a type that `query` handles. -/
def IsAnswer (f : Frame) : Prop :=
  4 ≤ f.length ∧ f.type ∈ [.commandComplete, .rowDescription, .dataRow, .emptyQueryResponse,
    .errorResponse, .readyForQuery, .noticeResponse]

instance (f : Frame) : Decidable f.IsAnswer :=
  inferInstanceAs (Decidable (4 ≤ f.length ∧ f.type ∈ _))

end Frame

/-! ## What the messages say -/

namespace PgResults

/-- What a message does to the results; `none` if it cannot be decoded inside of its payload. -/
def take (r : PgResults) (f : Frame) : Option PgResults :=
  match f.type with
  | .commandComplete =>
      if f.payload = [] then none else some (r.push (r.back.setCommandTag f.payload.dropLast))
  | .rowDescription | .dataRow =>
      (PgConnection.populated f.type f.payload r.back).map fun back => { r with back := back }
  | .emptyQueryResponse | .errorResponse => some (r.push r.back.setError)
  | _ => some r

/-- The results of the messages up to ReadyForQuery or up to one that cannot be decoded, and the
messages behind it. -/
def answered (r : PgResults) : List Frame → Option PgResults × List Frame
  | [] => (none, [])
  | f :: fs =>
      if f.type = .readyForQuery then (some r, fs)
      else match r.take f with
        | none => (none, fs)
        | some r => r.answered fs

variable {r : PgResults}

theorem take_notice {f : Frame} (h : f.type = .noticeResponse) : r.take f = some r := by
  rw [take, h]

theorem answered_notices {ns : List Frame} (hns : ∀ n ∈ ns, n.IsNotice) (fs : List Frame) :
    r.answered (ns ++ fs) = r.answered fs := by
  induction ns with
  | nil => rfl
  | cons n ns ih =>
    obtain ⟨hn, hns⟩ := List.forall_mem_cons.mp hns
    rw [List.cons_append, answered, if_neg (by rw [hn.1]; decide), take_notice hn.1]
    exact ih hns

end PgResults

namespace PgConnection

/-! ## Rows that are buffered -/

/-- These messages are next, each row of them wholly buffered once its header has been read. -/
structure Arrives (c : PgConnection) (fs : List Frame) (rest : Bytes) : Prop where
  pending : c.pending = fs.flatMap Frame.wire ++ rest
  whole : ∀ pre f post, fs = pre ++ f :: post → f.IsRow →
    f.BufferedAt c.sock.input (pre.flatMap Frame.wire).length

theorem Incoming.arrives {c : PgConnection} {fs : List Frame} {rest : Bytes}
    (h : c.Incoming fs rest) : c.Arrives fs rest :=
  ⟨h.pending, fun pre f post hfs _ => h.buffered pre f post hfs⟩

theorem Arrives.congr {c c' : PgConnection} {fs : List Frame} {rest : Bytes}
    (h : c.Arrives fs rest) (hinput : c'.sock.input = c.sock.input) : c'.Arrives fs rest where
  pending := by
    show c'.sock.input.pending = _
    rw [hinput]
    exact h.pending
  whole := by
    rw [hinput]
    exact h.whole

theorem Arrives.drop {c c' : PgConnection} {fs gs : List Frame} {rest : Bytes}
    (h : c.Arrives (fs ++ gs) rest) (hc : c.Consumes (fs.flatMap Frame.wire) c') :
    c'.Arrives gs rest where
  pending := hc.rest_eq (by rw [h.pending, List.flatMap_append, List.append_assoc])
  whole pre f post hgs hrow x hx hin := by
    refine h.whole (fs ++ pre) f post (by rw [hgs, List.append_assoc]) hrow _ (hc.1.1.endsAt hx) ?_
    rw [List.flatMap_append, List.length_append]
    omega

/-- The header of a message has been read, its payload is buffered if it is a row, and these
messages follow. -/
structure Faces (c : PgConnection) (m : Frame) (fs : List Frame) (rest : Bytes) : Prop where
  pending : c.pending = m.payload ++ (fs.flatMap Frame.wire ++ rest)
  whole : m.IsRow → ∃ more, c.sock.input.buffer.unread = m.payload ++ more
  next : ∀ c', c.Consumes m.payload c' → c'.Arrives fs rest

theorem Arrives.receive {c : PgConnection} {ns fs : List Frame} {m : Frame} {rest : Bytes}
    (h : c.Arrives (ns ++ m :: fs) rest) (hns : ∀ n ∈ ns, n.IsNotice)
    (hm : m.type ≠ .noticeResponse) :
    ∃ c', (getResponseInfo true).run c = (.returned ⟨m.type, m.size⟩, c') ∧
      c.Consumes (ns.flatMap Frame.wire ++ m.header) c' ∧ c'.Faces m fs rest := by
  obtain ⟨c', hrun, hc, hrest, hnext⟩ := getResponseInfo_next hns hm h.pending
  refine ⟨c', hrun, hc, hrest, fun hrow => (h.whole ns m fs rfl hrow).payload hc hrest,
    fun c'' hc'' => ?_⟩
  refine Arrives.drop ?_ (hnext c'' hc'')
  rwa [List.append_assoc, List.singleton_append]

/-- The messages that are neither rows, notices nor the last one. -/
theorem IsAnswer.cases {m : Frame} (hm : m.IsAnswer) (hrow : ¬ m.IsRow)
    (hready : m.type ≠ .readyForQuery) (hnotice : m.type ≠ .noticeResponse) :
    m.type = .commandComplete ∨ m.type = .emptyQueryResponse ∨ m.type = .errorResponse := by
  obtain ⟨-, htype⟩ := hm
  simp only [Frame.IsRow, not_or] at hrow
  simp only [List.mem_cons, List.not_mem_nil, or_false] at htype
  tauto

/-- The `switch` takes the payload and does to the results what the message says. -/
theorem querySwitch_answered {c : PgConnection} {m : Frame} {fs : List Frame} {rest : Bytes}
    (h : c.Faces m fs rest) (hm : m.IsAnswer) (hready : m.type ≠ .readyForQuery)
    (hnotice : m.type ≠ .noticeResponse) (results : PgResults) :
    ∃ c', (querySwitch results ⟨m.type, m.size⟩).run c =
        ((results.take m).elim .undefined .returned, c') ∧ c.Consumes m.payload c' := by
  by_cases hrow : m.IsRow
  · obtain ⟨more, hmore⟩ := h.whole hrow
    obtain ⟨c', hrun, hc⟩ := populateDiscarded_buffered hrow hm.1 results.back hmore
    refine ⟨c', ?_, hc⟩
    have htake : results.take m = (populated m.type m.payload results.back).map
        fun back => { results with back := back } := by
      rcases hrow with ht | ht <;> simp only [PgResults.take, ht]
    rw [querySwitch_row hrow, Coro.run_bind, hrun, htake]
    cases populated m.type m.payload results.back <;> rfl
  · rcases IsAnswer.cases hm hrow hready hnotice with ht | ht
    · obtain ⟨c', hrun, hc⟩ := readTag_run h.pending
      refine ⟨c', ?_, hc⟩
      rw [querySwitch_commandComplete ht, m.size_eq hm.1]
      by_cases hnil : m.payload = []
      · have htake : results.take m = none := by
          simp only [PgResults.take, ht, hnil, if_pos]
        rw [if_pos hnil] at hrun
        rw [Coro.bind_undefined _ hrun, htake, Option.elim_none]
      · have htake : results.take m =
            some (results.push (results.back.setCommandTag m.payload.dropLast)) := by
          simp only [PgResults.take, ht, hnil, if_false]
        rw [if_neg hnil] at hrun
        rw [Coro.bind_returned _ hrun, htake, Option.elim_some, Coro.run_pure]
    · obtain ⟨c', hrun, hc⟩ := skip_run h.pending
      refine ⟨c', ?_, hc⟩
      have htake : results.take m = some (results.push results.back.setError) := by
        rcases ht with ht | ht <;> simp only [PgResults.take, ht]
      rw [querySwitch_skip ht, m.size_eq hm.1, Coro.bind_returned _ hrun, htake]
      rfl

/-! ## The receive loop -/

/-- Where a receive loop is, of which the messages say that it ends with `told`. -/
def Listening (told : Option PgResults × List Frame) (rest : Bytes) (results : PgResults)
    (c : PgConnection) : Prop :=
  (c.queryReady = false ∧ ∃ fs, (∀ f ∈ fs, f.IsAnswer) ∧ (∃ z ∈ fs, z.type = .readyForQuery) ∧
    c.Arrives fs rest ∧ results.answered fs = told) ∨
  (c.queryReady = true ∧ told.1 = some results ∧ c.pending = told.2.flatMap Frame.wire ++ rest)

theorem queryRound_answered {told : Option PgResults × List Frame} {rest : Bytes} {fs : List Frame}
    {c : PgConnection} (hready : c.queryReady = false) (hfs : ∀ f ∈ fs, f.IsAnswer)
    (hz : ∃ z ∈ fs, z.type = .readyForQuery) (h : c.Arrives fs rest) (results : PgResults)
    (htold : results.answered fs = told) :
    (∃ results' c', (queryRound results).run c = (.returned (.inl results'), c') ∧
      Listening told rest results' c' ∧ c'.pending.length < c.pending.length) ∨
    ∃ c', (queryRound results).run c = (.undefined, c') ∧ told.1 = none ∧
      c'.pending = told.2.flatMap Frame.wire ++ rest := by
  have hnot : ¬ c.queryReady = true := by simp [hready]
  obtain ⟨ns, m, gs, rfl, hns, hm⟩ := Frame.exists_message (fun f hf _ => (hfs f hf).1)
    (hz.imp fun z hz => ⟨hz.1, by rw [hz.2]; decide⟩)
  rw [PgResults.answered_notices hns, PgResults.answered] at htold
  obtain ⟨c₁, hinfo, hc₁, hfaces⟩ := h.receive hns hm
  have hmessage : m.IsAnswer := hfs m (by simp)
  have hless : c₁.pending.length < c.pending.length := by
    have := hc₁.length_pending
    rw [List.length_append, Frame.length_header, headerSize] at this
    omega
  by_cases hlast : m.type = .readyForQuery
  · rw [if_pos hlast] at htold
    subst htold
    obtain ⟨c₂, hskip, hc₂⟩ := skip_run hfaces.pending
    have hswitch : (querySwitch results ⟨m.type, m.size⟩).run c₁ =
        (.returned results, { c₂ with queryReady := true }) := by
      rw [querySwitch_readyForQuery hlast, m.size_eq hmessage.1, Coro.bind_returned _ hskip]
      rfl
    refine .inl ⟨results, { c₂ with queryReady := true }, ?_,
      .inr ⟨rfl, rfl, (hfaces.next c₂ hc₂).pending⟩, ?_⟩
    · rw [queryRound, Coro.run_get_bind, if_neg hnot, Coro.bind_returned _ hinfo,
        Coro.bind_returned _ hswitch, Coro.run_pure]
    · have := hc₂.length_pending
      change c₂.pending.length < _
      omega
  · rw [if_neg hlast] at htold
    obtain ⟨c₂, hswitch, hc₂⟩ := querySwitch_answered hfaces hmessage hlast hm results
    have hnext := hfaces.next c₂ hc₂
    have hround : (queryRound results).run c = (querySwitch results ⟨m.type, m.size⟩ >>= fun r =>
        pure (.inl r)).run c₁ := by
      rw [queryRound, Coro.run_get_bind, if_neg hnot, Coro.bind_returned _ hinfo]
    cases htake : results.take m with
    | none =>
      rw [htake] at htold hswitch
      subst htold
      exact .inr ⟨c₂, by rw [hround, Coro.bind_undefined _ hswitch], rfl, hnext.pending⟩
    | some results' =>
      rw [htake] at htold hswitch
      refine .inl ⟨results', c₂, by rw [hround, Coro.bind_returned _ hswitch, Coro.run_pure],
        .inl ⟨by rw [hc₂.2, hc₁.2, hready], gs, fun f hf => hfs f (by simp [hf]), ?_, hnext, htold⟩,
        ?_⟩
      · obtain ⟨z, hmem, hz⟩ := hz
        rcases List.mem_append.mp hmem with hmem | hmem
        · exact absurd ((hns z hmem).1.symm.trans hz) (by decide)
        · rcases List.mem_cons.mp hmem with rfl | hmem
          · exact absurd hz hlast
          · exact ⟨z, hmem, hz⟩
      · have := hc₂.length_pending
        omega

theorem receiveQuery_answered {fs : List Frame} {rest : Bytes} {c : PgConnection}
    (hready : c.queryReady = false) (hfs : ∀ f ∈ fs, f.IsAnswer)
    (hz : ∃ z ∈ fs, z.type = .readyForQuery) (h : c.Arrives fs rest) :
    ∃ o c', receiveQuery.run c = (o, c') ∧
      o = (PgResults.answered { done := [], back := .empty } fs).1.elim .undefined .returned ∧
      c'.pending = (PgResults.answered { done := [], back := .empty } fs).2.flatMap Frame.wire ++
        rest := by
  generalize htold : PgResults.answered { done := [], back := .empty } fs = told
  refine Coro.loop_leaves (fun c => c.sock.pending.length + 1) queryRound (Listening told rest)
    (fun o c' => o = told.1.elim .undefined .returned ∧
      c'.pending = told.2.flatMap Frame.wire ++ rest)
    (fun _ c => c.pending.length) _ c (.inl ⟨hready, fs, hfs, hz, h, htold⟩) (Nat.lt_succ_self _) ?_
  rintro results c₁ (⟨hready₁, gs, hgs, hz₁, h₁, htold₁⟩ | ⟨hready₁, htold₁, hpending⟩)
  · rcases queryRound_answered hready₁ hgs hz₁ h₁ results htold₁ with hgo | ⟨c₂, hrun, hnone, hend⟩
    · exact .inl hgo
    · exact .inr ⟨_, c₂, _, hrun, rfl, by rw [hnone, Option.elim_none], hend⟩
  · have hround : (queryRound results).run c₁ = (.returned (.inr results), c₁) := by
      rw [queryRound, Coro.run_get_bind, if_pos hready₁, Coro.run_pure]
    exact .inr ⟨_, c₁, _, hround, rfl, by rw [htold₁, Option.elim_some], hpending⟩

/-! ## The whole query -/

/-- What `query` writes, by the writing half alone. -/
def writeQuery (q : Bytes) : Coro Output Exn Unit := do
  Output.write (responseHeader 'Q'.toUInt8 (q.length + 1))
  Output.write (q ++ [0])
  Output.flush

theorem onOutput_bind {α β : Type} (t : Coro Output Exn α) (f : α → Coro Output Exn β) :
    onSock (Socket.onOutput (t >>= f)) =
      onSock (Socket.onOutput t) >>= fun a => onSock (Socket.onOutput (f a)) := by
  have hsocket : Coro.IsField Socket.output (fun o s => { s with output := o }) :=
    ⟨fun _ _ => rfl, fun _ _ _ => rfl⟩
  have hconn : Coro.IsField sock (fun s c => { c with sock := s }) :=
    ⟨fun _ _ => rfl, fun _ _ _ => rfl⟩
  simp only [onSock, Socket.onOutput, Coro.focus_bind hsocket, Coro.focus_bind hconn]

theorem sendQuery_run (q : Bytes) (c : PgConnection) : (sendQuery q).run c =
    (((writeQuery q).run c.output).1,
      { c with sock.output := ((writeQuery q).run c.output).2 }) := by
  have heq : sendQuery q = onSock (Socket.onOutput (writeQuery q)) := by
    rw [writeQuery, onOutput_bind]
    simp only [onOutput_bind]
    rfl
  rw [heq]
  rfl

/-- `query` goes on in these states alike. -/
structure Alike (c₁ c₂ : PgConnection) : Prop where
  output : c₁.output = c₂.output
  ready : c₁.queryReady = c₂.queryReady

/-- `query` leaves off alike, and at the same position of the stream. -/
def SameRun (q : Bytes) (c₁ c₂ : PgConnection) : Prop :=
  ((query q).run c₁).1 = ((query q).run c₂).1 ∧
    ((query q).run c₁).2.pending = ((query q).run c₂).2.pending

theorem query_answered {fs : List Frame} {rest : Bytes} {c : PgConnection} {q : Bytes}
    (hready : c.queryReady = true) (hsent : ((writeQuery q).run c.output).1 = .returned ())
    (hfs : ∀ f ∈ fs, f.IsAnswer) (hz : ∃ z ∈ fs, z.type = .readyForQuery)
    (h : c.Arrives fs rest) : ∃ c', (query q).run c =
      ((PgResults.answered { done := [], back := .empty } fs).1.elim .undefined
        fun r => .returned r.done, c') ∧
      c'.pending = (PgResults.answered { done := [], back := .empty } fs).2.flatMap Frame.wire ++
        rest := by
  have hsend : (sendQuery q).run c =
      (.returned (), { c with sock.output := ((writeQuery q).run c.output).2 }) := by
    rw [sendQuery_run, hsent]
  have h₁ : ({ c with sock.output := ((writeQuery q).run c.output).2, queryReady := false } :
      PgConnection).Arrives fs rest := h.congr rfl
  obtain ⟨o, c', hrun, ho, hpending⟩ := receiveQuery_answered rfl hfs hz h₁
  refine ⟨c', ?_, hpending⟩
  have hset : (setQueryReady false).run
      { c with sock.output := ((writeQuery q).run c.output).2 } =
      (.returned (), { c with sock.output := ((writeQuery q).run c.output).2,
                              queryReady := false }) := rfl
  rw [query, Coro.run_get_bind, if_neg (not_not.mpr hready), Coro.bind_returned _ hsend,
    Coro.bind_returned _ hset, Coro.run_bind, hrun, ho]
  cases (PgResults.answered { done := [], back := .empty } fs).1 <;> rfl

/-- Where no cut lies in a row, `query` makes the same of a reply however it is cut. -/
theorem sameRun_of_arrives {fs : List Frame} {rest : Bytes} {c₁ c₂ : PgConnection}
    (hfs : ∀ f ∈ fs, f.IsAnswer) (hz : ∃ z ∈ fs, z.type = .readyForQuery) (q : Bytes)
    (halike : Alike c₁ c₂) (h₁ : c₁.Arrives fs rest) (h₂ : c₂.Arrives fs rest) :
    SameRun q c₁ c₂ := by
  have hpending : c₁.pending = c₂.pending := h₁.pending.trans h₂.pending.symm
  by_cases hready : c₁.queryReady = true
  · have hready₂ : c₂.queryReady = true := halike.ready ▸ hready
    rcases hwrite : (writeQuery q).run c₁.output with ⟨o, out⟩
    have hwrite₂ : (writeQuery q).run c₂.output = (o, out) := by rw [← halike.output, hwrite]
    have hsend₁ : (sendQuery q).run c₁ = (o, { c₁ with sock.output := out }) := by
      rw [sendQuery_run, hwrite]
    have hsend₂ : (sendQuery q).run c₂ = (o, { c₂ with sock.output := out }) := by
      rw [sendQuery_run, hwrite₂]
    rw [SameRun]
    cases o with
    | returned a =>
      obtain ⟨c₁', hrun₁, hend₁⟩ := query_answered hready (by rw [hwrite]) hfs hz h₁
      obtain ⟨c₂', hrun₂, hend₂⟩ := query_answered hready₂ (by rw [hwrite₂]) hfs hz h₂
      rw [hrun₁, hrun₂]
      exact ⟨rfl, hend₁.trans hend₂.symm⟩
    | threw e =>
      rw [query, Coro.run_get_bind, Coro.run_get_bind, if_neg (not_not.mpr hready),
        if_neg (not_not.mpr hready₂), Coro.bind_threw _ hsend₁, Coro.bind_threw _ hsend₂]
      exact ⟨rfl, hpending⟩
    | suspended =>
      rw [query, Coro.run_get_bind, Coro.run_get_bind, if_neg (not_not.mpr hready),
        if_neg (not_not.mpr hready₂), Coro.bind_suspended _ hsend₁, Coro.bind_suspended _ hsend₂]
      exact ⟨rfl, hpending⟩
    | undefined =>
      rw [query, Coro.run_get_bind, Coro.run_get_bind, if_neg (not_not.mpr hready),
        if_neg (not_not.mpr hready₂), Coro.bind_undefined _ hsend₁, Coro.bind_undefined _ hsend₂]
      exact ⟨rfl, hpending⟩
  · have hready₂ : ¬ c₂.queryReady = true := halike.ready ▸ hready
    rw [SameRun, query, Coro.run_get_bind, Coro.run_get_bind, if_pos hready, if_pos hready₂]
    exact ⟨rfl, hpending⟩

/-! ## Byte by byte -/

abbrev Trickles (c : PgConnection) : Prop := c.sock.input.Trickles

theorem onInput_trickles {α : Type} {t : Coro Input Exn α} (ht : Coro.Preserves Input.Trickles t) :
    Coro.Preserves Trickles (onSock (Socket.onInput t)) := fun c h => ht c.sock.input h

theorem skip_trickles (size : Int) : Coro.Preserves Trickles (skip size) :=
  onInput_trickles (Input.skip_trickles size true)

theorem getResponseInfo_trickles : Coro.Preserves Trickles (getResponseInfo true) :=
  .loop (fun size => (Coro.Preserves.ite (skip_trickles size) (.pure _)).bind fun _ =>
    .bind (.bind (onInput_trickles (Input.readInto_trickles _ true)) fun _ => .pure _) fun _ =>
      .ite (.pure _) (.pure _)) 0

theorem readTag_trickles (size : Int) : Coro.Preserves Trickles (readTag size) :=
  (onInput_trickles (Input.read_trickles size true)).bind fun _ => .ite .stuck (.pure _)

/-- Where nothing is buffered and nothing comes, a read of a payload waits, or there is none. -/
theorem readInto_drained (size : Int) {c : PgConnection} (hu : c.sock.input.buffer.unread = [])
    (hr : c.sock.input.recvs = []) : ∃ o c', (onSock (Socket.readInto size true)).run c = (o, c') ∧
      (o = .suspended ∨ o = .undefined ∨ o = .returned []) ∧ c'.sock.input.buffer.unread = [] := by
  have hon {o : Outcome Exn Bytes} {i : Input}
      (hrun : (Input.readInto size true).run c.sock.input = (o, i)) :
      (onSock (Socket.readInto size true)).run c = (o, { c with sock.input := i }) := by
    rw [onSock, Socket.readInto, Socket.onInput, Coro.run_focus (Coro.run_focus hrun)]
  by_cases hneg : size < 0
  · have hrun : (Input.readInto size true).run c.sock.input = (.undefined, c.sock.input) := by
      rw [Input.readInto, if_pos hneg, Coro.run_stuck]
    exact ⟨_, _, hon hrun, .inr (.inl rfl), hu⟩
  · by_cases hzero : size = 0
    · subst hzero
      have hnone : c.sock.input.pending = [] ++ c.sock.input.pending := rfl
      obtain ⟨i, hrun, hc⟩ := Input.readInto_run true hnone
      obtain ⟨-, segments, hrecvs, hunread⟩ := hc
      rw [hr] at hrecvs
      obtain ⟨hnil, -⟩ := List.append_eq_nil_iff.mp hrecvs.symm
      rw [List.map_eq_nil_iff] at hnil
      subst hnil
      rw [hu, List.flatMap_nil] at hunread
      exact ⟨_, _, hon hrun, .inr (.inr rfl), hunread.symm⟩
    · have hlt : c.sock.input.buffer.unread.length < size.toNat := by
        rw [hu, List.length_nil]
        omega
      obtain ⟨i, hrun, -, hunread, -⟩ := Input.consume_starved "socket read" true hr hlt
      refine ⟨_, _, hon (i := i) ?_, .inl rfl, hunread⟩
      rw [Input.readInto, if_neg hneg, hrun]

theorem populateDiscarded_trickles (info : ResponseInfo) (result : PgResult) :
    Coro.Leads Trickles (populateDiscarded info result) fun r c => r = result ∧ Trickles c := by
  intro c r c' hc hrun
  have hnone (o : Outcome Exn PgResult) (c₁ : PgConnection)
      (hpopulate : (populateResult info result).run (c.withRecvs []) = (o, c₁))
      (ho : o = .suspended ∨ o = .undefined ∨ o = .returned result)
      (hu : c₁.sock.input.buffer.unread = []) : r = result ∧ Trickles c' := by
    have hpart : Trickles (c₁.withRecvs c.sock.input.recvs) := ⟨hu, hc.2⟩
    rcases ho with rfl | rfl | rfl <;>
      simp only [populateDiscarded, Coro.run_bind, discard, hpopulate, Coro.run_pure,
        Option.getD_none, Option.getD_some, Prod.mk.injEq, Outcome.returned.injEq, reduceCtorEq,
        false_and] at hrun
    · exact ⟨hrun.1.symm, hrun.2 ▸ hpart⟩
    · exact ⟨hrun.1.symm, hrun.2 ▸ hpart⟩
  obtain ⟨o, c₁, hread, ho, hu⟩ := readInto_drained info.size (c := c.withRecvs []) hc.1 rfl
  by_cases hrow : info.type = .rowDescription ∨ info.type = .dataRow
  · have hempty : decodeRowDescription [] = none ∧ decodeDataRow [] = none := ⟨rfl, rfl⟩
    rcases ho with rfl | rfl | rfl
    · refine hnone .suspended c₁ ?_ (.inl rfl) hu
      rcases hrow with ht | ht <;> simp only [populateResult, ht, Coro.bind_suspended _ hread]
    · refine hnone .undefined c₁ ?_ (.inr (.inl rfl)) hu
      rcases hrow with ht | ht <;> simp only [populateResult, ht, Coro.bind_undefined _ hread]
    · refine hnone .undefined c₁ ?_ (.inr (.inl rfl)) hu
      rcases hrow with ht | ht <;>
        simp only [populateResult, ht, Coro.bind_returned _ hread, hempty, Coro.run_stuck]
  · have hpopulate : (populateResult info result).run (c.withRecvs []) =
        (.returned result, c.withRecvs []) := by
      rw [populateResult]
      split
      · exact absurd (.inl ‹_›) hrow
      · exact absurd (.inr ‹_›) hrow
      · rfl
    exact hnone _ _ hpopulate (.inr (.inr rfl)) hc.1

end PgConnection

def PgResult.Blank (r : PgResult) : Prop := r.columns = [] ∧ r.rows = []

structure PgResults.Blank (r : PgResults) : Prop where
  done : ∀ x ∈ r.done, x.Blank
  back : r.back.Blank

instance (r : PgResult) : Decidable r.Blank :=
  inferInstanceAs (Decidable (r.columns = [] ∧ r.rows = []))

theorem PgResults.Blank.push {r : PgResults} (h : r.Blank) {back : PgResult} (hback : back.Blank) :
    (r.push back).Blank := by
  refine ⟨fun x hx => ?_, rfl, rfl⟩
  rcases List.mem_append.mp hx with hx | hx
  · exact h.done x hx
  · rwa [List.mem_singleton.mp hx]

namespace PgConnection

theorem querySwitch_trickles (results : PgResults) (info : ResponseInfo) :
    Coro.Leads (fun c => Trickles c ∧ results.Blank) (querySwitch results info)
      fun r c => Trickles c ∧ r.Blank := by
  have hthen {α : Type} {t : Coro PgConnection Exn α} (ht : Coro.Preserves Trickles t)
      {f : α → PgResults} (hf : ∀ a, results.Blank → (f a).Blank) :
      Coro.Leads (fun c => Trickles c ∧ results.Blank) (t >>= fun a => pure (f a))
        fun r c => Trickles c ∧ r.Blank := by
    rintro c r c' ⟨hc, hblank⟩ hrun
    obtain ⟨a, c₁, hrun₁, hrun₂⟩ := Coro.returned_of_bind hrun
    obtain ⟨hr, rfl⟩ := Prod.mk.inj hrun₂
    obtain rfl := Outcome.returned.inj hr
    exact ⟨ht.of_returned hrun₁ hc, hf a hblank⟩
  have hrow : Coro.Leads (fun c => Trickles c ∧ results.Blank)
      (populateDiscarded info results.back >>= fun back => pure { results with back := back })
      fun r c => Trickles c ∧ r.Blank := by
    rintro c r c' ⟨hc, hblank⟩ hrun
    obtain ⟨back, c₁, hrun₁, hrun₂⟩ := Coro.returned_of_bind hrun
    obtain ⟨hback, hc₁⟩ := populateDiscarded_trickles info results.back c back c₁ hc hrun₁
    obtain ⟨hr, rfl⟩ := Prod.mk.inj hrun₂
    obtain rfl := Outcome.returned.inj hr
    exact ⟨hc₁, hblank.done, hback ▸ hblank.back⟩
  rw [querySwitch]
  split
  · exact hthen (readTag_trickles _) fun tag h => h.push h.back
  · exact hrow
  · exact hrow
  · exact hthen (skip_trickles _) fun _ h => h.push h.back
  · exact hthen (skip_trickles _) fun _ h => h.push h.back
  · have hset : Coro.Preserves Trickles (setQueryReady true) := fun _ h => h
    rw [← Coro.bind_assoc]
    exact hthen ((skip_trickles _).bind fun _ => hset) fun _ h => h
  · exact fun c r c' h hrun => by
      obtain ⟨hr, rfl⟩ := Prod.mk.inj hrun
      exact Outcome.returned.inj hr ▸ h

theorem queryRound_trickles (results : PgResults) :
    Coro.Leads (fun c => Trickles c ∧ results.Blank) (queryRound results) fun r c =>
      Sum.elim (fun r => Trickles c ∧ r.Blank) (fun r => Trickles c ∧ r.Blank) r := by
  rintro c r c' ⟨hc, hblank⟩ hrun
  rw [queryRound, Coro.run_get_bind] at hrun
  split at hrun
  · obtain ⟨hr, rfl⟩ := Prod.mk.inj hrun
    obtain rfl := Outcome.returned.inj hr
    exact ⟨hc, hblank⟩
  · obtain ⟨info, c₁, hinfo, hrun⟩ := Coro.returned_of_bind hrun
    obtain ⟨r', c₂, hswitch, hrun⟩ := Coro.returned_of_bind hrun
    have hc₁ := getResponseInfo_trickles.of_returned hinfo hc
    have hnext := querySwitch_trickles results info c₁ r' c₂ ⟨hc₁, hblank⟩ hswitch
    obtain ⟨hr, rfl⟩ := Prod.mk.inj hrun
    obtain rfl := Outcome.returned.inj hr
    exact hnext

/-- A reply that comes byte by byte has no columns and no rows in its results. -/
theorem query_trickles (q : Bytes) : Coro.Leads Trickles (query q) fun results _ =>
    ∀ r ∈ results, r.Blank := by
  intro c results c' hc hrun
  rw [query, Coro.run_get_bind] at hrun
  split at hrun
  · cases (Prod.mk.inj hrun).1
  · obtain ⟨_, c₁, hsend, hrun⟩ := Coro.returned_of_bind hrun
    obtain ⟨_, c₂, hset, hrun⟩ := Coro.returned_of_bind hrun
    obtain ⟨r, c₃, hreceive, hrun⟩ := Coro.returned_of_bind hrun
    have hc₁ : Trickles c₁ := by
      rw [sendQuery_run] at hsend
      obtain ⟨-, rfl⟩ := Prod.mk.inj hsend
      exact hc
    have hc₂ : Trickles c₂ := by
      obtain ⟨-, rfl⟩ := Prod.mk.inj hset
      exact hc₁
    have hstart : ({ done := [], back := .empty } : PgResults).Blank := ⟨by simp, rfl, rfl⟩
    have hend := Coro.Leads.loop (fun r c => Trickles c ∧ r.Blank) queryRound_trickles _ c₂ r c₃
      ⟨hc₂, hstart⟩ hreceive
    obtain ⟨hr, -⟩ := Prod.mk.inj hrun
    obtain rfl := Outcome.returned.inj hr
    exact hend.2.done

/-! ## Cuts -/

/-- The connection, with a stream that comes byte by byte. -/
def trickling (c : PgConnection) (bs : Bytes) : PgConnection :=
  { c with sock.input :=
      (Socket.new ((bs.map Segment.single).map .data) fun _ => .accepted 0).input }

theorem trickling_trickles (c : PgConnection) (bs : Bytes) : Trickles (c.trickling bs) := by
  refine ⟨ByteBuffer.unread_empty _, fun r hr => ?_⟩
  obtain ⟨segment, hsegment, rfl⟩ := List.mem_map.mp hr
  obtain ⟨b, -, rfl⟩ := List.mem_map.mp hsegment
  exact ⟨_, rfl, rfl⟩

theorem trickling_pending (c : PgConnection) (bs : Bytes) : (c.trickling bs).pending = bs := by
  have h := Socket.pending_new ((bs.map Segment.single).map .data) fun _ => .accepted 0
  rw [Input.carried_data, Segment.flatMap_single] at h
  exact h

/-- A reply that fits and has a column or a row in its results is not made the same of when it comes
byte by byte. -/
theorem exists_not_sameRun {fs : List Frame} (hfs : ∀ f ∈ fs, f.IsAnswer)
    (hz : ∃ z ∈ fs, z.type = .readyForQuery) (hfits : ∀ f ∈ fs, f.Fits) {r : PgResults}
    (hr : (PgResults.answered { done := [], back := .empty } fs).1 = some r)
    (hblank : ∃ x ∈ r.done, ¬ x.Blank) (q : Bytes) (rest : Bytes) :
    ∃ c₁ c₂ : PgConnection, Alike c₁ c₂ ∧ c₁.pending = fs.flatMap Frame.wire ++ rest ∧
      c₂.pending = fs.flatMap Frame.wire ++ rest ∧ ¬ SameRun q c₁ c₂ := by
  obtain ⟨sock, hsends, hin⟩ := exists_incoming fs hfits rest
  obtain ⟨c, rfl, hready, harrives⟩ : ∃ c : PgConnection, c.sock = sock ∧ c.queryReady = true ∧
      c.Arrives fs rest := ⟨⟨sock, true⟩, rfl, rfl, (hin true).arrives⟩
  refine ⟨c, c.trickling (fs.flatMap Frame.wire ++ rest), ⟨rfl, rfl⟩, harrives.pending,
    trickling_pending _ _, fun hsame => ?_⟩
  have hsent : ((writeQuery q).run c.output).1 = .returned () := by
    obtain ⟨c', hrun, -⟩ := sends_query q c hsends
    rw [sendQuery_run] at hrun
    exact (Prod.mk.inj hrun).1
  obtain ⟨c₁, hrun, -⟩ := query_answered hready hsent hfs hz harrives
  rw [hr, Option.elim_some] at hrun
  have htrickles : ((query q).run (c.trickling (fs.flatMap Frame.wire ++ rest))).1 =
      .returned r.done := hsame.1.symm.trans (congrArg Prod.fst hrun)
  obtain ⟨x, hx, hnot⟩ := hblank
  exact hnot (query_trickles q _ _ _ (trickling_trickles _ _) (Prod.ext htrickles rfl) x hx)

/-- `query` makes the same of a reply in any two cuts of it that leave the rows whole. Of a reply
that fits and has a column or a row in its results it does not so in all cuts. -/
theorem query_cut {fs : List Frame} (hfs : ∀ f ∈ fs, f.IsAnswer)
    (hz : ∃ z ∈ fs, z.type = .readyForQuery) (q : Bytes) (rest : Bytes) :
    (∀ c₁ c₂ : PgConnection, Alike c₁ c₂ → c₁.Arrives fs rest → c₂.Arrives fs rest →
      SameRun q c₁ c₂) ∧
    ((∀ f ∈ fs, f.Fits) → ∀ r left, PgResults.answered { done := [], back := .empty } fs =
      (some r, left) → (∃ x ∈ r.done, ¬ x.Blank) →
      ∃ c₁ c₂ : PgConnection, Alike c₁ c₂ ∧ c₁.pending = fs.flatMap Frame.wire ++ rest ∧
        c₂.pending = fs.flatMap Frame.wire ++ rest ∧ ¬ SameRun q c₁ c₂) := by
  constructor
  · intro c₁ c₂ halike h₁ h₂
    exact sameRun_of_arrives hfs hz q halike h₁ h₂
  · intro hfits r left hr hblank
    exact exists_not_sameRun hfs hz hfits (congrArg Prod.fst hr) hblank q rest

theorem exists_arrives (fs : List Frame) (hne : fs.flatMap Frame.wire ≠ [])
    (hle : (fs.flatMap Frame.wire).length ≤ socketBufferSize) (c : PgConnection) :
    ∃ c', Alike c c' ∧ c'.Arrives fs [] ∧ c'.sock.input.recvs.length = 1 := by
  let whole : Segment := ⟨fs.flatMap Frame.wire, hne, hle⟩
  let input : Input := (Socket.new [.data whole] fun _ => .accepted 0).input
  refine ⟨{ c with sock.input := input }, ⟨rfl, rfl⟩, ⟨?_, ?_⟩, rfl⟩
  · have h := Socket.pending_new [.data whole] fun _ => .accepted 0
    exact h
  · intro pre f post hfs _ x hx hin
    have hx' : (Segment.sizes [whole]).IsBoundary x :=
      Input.isBoundary_of_endsAt (ByteBuffer.unread_empty _) rfl hx
    have hsize : Segment.sizes [whole] = [(fs.flatMap Frame.wire).length] := rfl
    rw [hsize, hfs] at hx'
    simp only [List.flatMap_append, List.flatMap_cons, List.length_append] at hx'
    rw [headerSize] at hin
    rcases List.isBoundary_cons.mp hx' with rfl | ⟨y, hy, rfl⟩
    · omega
    · omega

/-- A row, the tag of its command, and the end of the reply. -/
def rowReply : List Frame := [
  .message 'D'.toUInt8 [0, 1, 0, 0, 0, 1, 97] (by decide),
  .message 'C'.toUInt8 (ascii "SELECT 1" ++ [0]) (by decide),
  .message 'Z'.toUInt8 ['I'.toUInt8] (by decide)]

theorem rowReply_isAnswer : ∀ f ∈ rowReply, f.IsAnswer := by decide

theorem rowReply_ends : ∃ z ∈ rowReply, z.type = .readyForQuery := by decide

/-- A reply with a row in one piece, and in two pieces for each message. -/
theorem query_cut_row : ∃ c₁ c₂ : PgConnection, c₁.sock.input.recvs.length = 6 ∧
    c₂.sock.input.recvs.length = 1 ∧ c₁.Arrives rowReply [] ∧ c₂.Arrives rowReply [] ∧
    SameRun (ascii "select 'a'") c₁ c₂ := by
  let c₁ : PgConnection := ⟨Socket.incoming rowReply (by decide) [], true⟩
  have h₁ : c₁.Arrives rowReply [] := (incoming_run rowReply (by decide) [] true).arrives
  obtain ⟨c₂, halike, h₂, hone⟩ := exists_arrives rowReply (by decide) (by decide) c₁
  exact ⟨c₁, c₂, rfl, hone, h₁, h₂,
    (query_cut rowReply_isAnswer rowReply_ends (ascii "select 'a'") []).1 c₁ c₂ halike h₁ h₂⟩

/-- The same reply byte by byte. -/
theorem not_sameRun_row : ¬ ∀ (fs : List Frame) (q rest : Bytes) (c₁ c₂ : PgConnection),
    (∀ f ∈ fs, f.IsAnswer) → (∃ z ∈ fs, z.type = .readyForQuery) → Alike c₁ c₂ →
    c₁.pending = fs.flatMap Frame.wire ++ rest → c₂.pending = fs.flatMap Frame.wire ++ rest →
    SameRun q c₁ c₂ := by
  intro h
  have hresults : (PgResults.answered { done := [], back := .empty } rowReply).1 =
      some { done := [⟨ascii "SELECT 1", [], [[⟨[97], 1⟩]], .success⟩], back := .empty } := by
    decide +kernel
  obtain ⟨c₁, c₂, halike, h₁, h₂, hnot⟩ := exists_not_sameRun rowReply_isAnswer rowReply_ends
    (by decide) hresults (by decide) (ascii "select 'a'") []
  exact hnot (h rowReply _ _ c₁ c₂ rowReply_isAnswer rowReply_ends halike h₁ h₂)

end PgConnection

end CppEvent
