import CppEvent.Net.Stream
import CppEvent.Http.Server

/-!
# What a connection makes of how its bytes are cut

The lines of a message are read by peeking into whatever is buffered; on the stream behind the buffer
that is a loop over single bytes (`readHttpLine_refines`). The body, the response, endpoints and the
connection loop touch the socket only through operations that treat alike sockets alike, so a
connection is handled in the same way however the bytes from the client and those to the client are
cut (`onConnection_segmentation`).
-/

namespace CppEvent

open Coroutine

/-! ## Lines -/

namespace Stream

/-- The loop of `read_http_line`, byte by byte. -/
def lineFrom (closes : Bool) (line : Bytes) :
    List Arrival → Outcome Exn (Bytes × Bool) × List Arrival
  | .byte b :: rest =>
      if b = lf then (.returned (line ++ [b], true), rest) else lineFrom closes (line ++ [b]) rest
  | .failed errnum :: rest => (.threw (.systemError "socket peek failed: " errnum), rest)
  | [] => if closes then (.returned (line, false), []) else (.suspended, [])

def lineLoop (line : Bytes) : Coro Stream Exn (Bytes × Bool) := ⟨fun st =>
  let r := lineFrom st.closes line st.arrivals
  (r.1, { st with arrivals := r.2 })⟩

def readHttpLine : Coro Stream Exn HttpLine := do
  let (line, lineEnded) ← lineLoop []
  pure { val := if lineEnded then stripLineEnd line else line, received := lineEnded }

theorem takeLine_fst_of_not_ended {bs : Bytes} (h : (takeLine bs).2 = false) :
    (takeLine bs).1 = bs := by
  induction bs with
  | nil => rfl
  | cons b bs ih =>
    by_cases hb : b = lf
    · rw [takeLine, if_pos hb] at h
      cases h
    · rw [takeLine, if_neg hb] at h ⊢
      exact congrArg (b :: ·) (ih h)

theorem takeLine_prefix (bs : Bytes) : (takeLine bs).1 ++ bs.drop (takeLine bs).1.length = bs := by
  induction bs with
  | nil => rfl
  | cons b bs ih =>
    by_cases hb : b = lf
    · rw [takeLine, if_pos hb]
      rfl
    · rw [takeLine, if_neg hb]
      exact congrArg (b :: ·) ih

theorem lineLoop_ended {bs : Bytes} (h : (takeLine bs).2 = true) (line : Bytes) (st : Stream) :
    (lineLoop line).run (st.prepend bs) = (.returned (line ++ (takeLine bs).1, true),
      st.prepend (bs.drop (takeLine bs).1.length)) := by
  induction bs generalizing line with
  | nil => cases h
  | cons b bs ih =>
    by_cases hb : b = lf
    · simp [lineLoop, prepend, lineFrom, takeLine, hb]
    · rw [takeLine, if_neg hb] at h
      have hrest := ih h (line ++ [b])
      rw [takeLine, if_neg hb]
      simpa [lineLoop, prepend, lineFrom, hb] using hrest

theorem lineLoop_open {bs : Bytes} (h : (takeLine bs).2 = false) (line : Bytes) (st : Stream) :
    (lineLoop line).run (st.prepend bs) = (lineLoop (line ++ bs)).run st := by
  induction bs generalizing line with
  | nil => rw [prepend_nil, List.append_nil]
  | cons b bs ih =>
    by_cases hb : b = lf
    · rw [takeLine, if_pos hb] at h
      cases h
    · rw [takeLine, if_neg hb] at h
      have hrest := ih h (line ++ [b])
      rw [← List.append_cons line b bs] at hrest
      simpa [lineLoop, prepend, lineFrom, hb] using hrest

end Stream

theorem Input.peek_stream (s : Input) :
    (∃ s', peek.run s = (.returned s'.buffer.unread, s') ∧ s'.buffer.unread ≠ [] ∧
      s'.stream = s.stream) ∨
    (s.stream = ⟨[], true⟩ ∧ ∃ s', peek.run s = (.returned [], s') ∧ s'.stream = s.stream) ∨
    (s.stream = ⟨[], false⟩ ∧ ∃ s', peek.run s = (.suspended, s') ∧ s'.stream = s.stream) ∨
    ∃ errnum rest s', s.stream.arrivals = .failed errnum :: rest ∧
      peek.run s = (.threw (.systemError "socket peek failed: " errnum), s') ∧
      s'.stream = { s.stream with arrivals := rest } := by
  by_cases hu : s.buffer.unread = []
  · have hpeek : peek.run s = (recvIncoming >>= fun status =>
        if status < 0 then Coro.fail (.systemError "socket peek failed: " (0 - status).toNat)
        else Coro.get >>= fun s => pure s.buffer.unread).run s := by
      rw [peek, Coro.run_get_bind, if_pos hu]
    rw [hpeek]
    rcases recvIncoming_stream hu with ⟨-, hst, s₁, hrun, hst₁⟩ |
      ⟨segment, s₁, hrun, hu₁, hr₁, hst₁⟩ | ⟨hst, s₁, hrun, hu₁, hst₁⟩ |
      ⟨errnum, rest, s₁, hpos, hst, hrun, hst₁⟩
    · exact .inr (.inr (.inl ⟨hst, s₁, by rw [Coro.bind_suspended _ hrun], hst₁⟩))
    · have hlen := List.length_pos_iff.mpr segment.nonempty
      refine .inl ⟨s₁, ?_, by rw [hu₁]; exact segment.nonempty, hst₁⟩
      rw [Coro.bind_returned _ hrun, if_neg (by omega), Coro.run_get_bind, Coro.run_pure]
    · refine .inr (.inl ⟨hst, s₁, ?_, hst₁⟩)
      rw [Coro.bind_returned _ hrun, if_neg (by omega), Coro.run_get_bind, Coro.run_pure, hu₁]
    · refine .inr (.inr (.inr ⟨errnum, rest, s₁, hst, ?_, hst₁⟩))
      rw [Coro.bind_returned _ hrun, if_pos (by omega), Coro.run_fail]
      simp
  · exact .inl ⟨s, by rw [peek, Coro.run_get_bind, if_neg hu, Coro.run_pure], hu, rfl⟩

theorem Socket.run_onInput_eq {α : Type} {t : Coro Input Exn α} {s : Socket} {i : Input}
    {o : Outcome Exn α} (h : t.run s.input = (o, i)) :
    (onInput t).run s = (o, { s with input := i }) := Coro.run_focus h

/-- The loop of `read_http_line`, with enough rounds for the bytes that are to come. -/
theorem lineLoop_refines (n : Nat) (line : Bytes) (s : Socket) (hn : s.pending.length < n) :
    ((Coro.iterate lineRound n line).run s).1 = ((Stream.lineLoop line).run s.stream).1 ∧
      ((Coro.iterate lineRound n line).run s).2.stream =
        ((Stream.lineLoop line).run s.stream).2 := by
  induction n generalizing line s with
  | zero => omega
  | succ n ih =>
    rcases s.input.peek_stream with ⟨i, hrun, hne, hst⟩ | ⟨hst, i, hrun, hst'⟩ |
      ⟨hst, i, hrun, hst'⟩ | ⟨errnum, rest, i, hst, hrun, hst'⟩
    · have hpeek : Socket.peek.run s = (.returned i.buffer.unread, { s with input := i }) :=
        Socket.run_onInput_eq hrun
      have hsplit := Stream.takeLine_prefix i.buffer.unread
      obtain ⟨i', hseek, hr', hu', -⟩ := Input.seek_run (takeLine i.buffer.unread).1 _ hsplit.symm
      have hseek' : (Socket.seek (takeLine i.buffer.unread).1.length).run { s with input := i } =
          (.returned (), { s with input := i' }) := Socket.run_onInput_eq hseek
      have hstream : s.stream = (Stream.ofRecvs i.recvs).prepend i.buffer.unread := hst.symm
      cases hended : (takeLine i.buffer.unread).2 with
      | true =>
        have hround : (lineRound line).run s =
            (.returned (.inr (line ++ (takeLine i.buffer.unread).1, true)),
              { s with input := i' }) := by
          rw [lineRound, Coro.bind_returned _ hpeek, if_neg hne, Coro.bind_returned _ hseek',
            if_pos hended, Coro.run_pure]
        rw [Coro.iterate_inr hround, hstream, Stream.lineLoop_ended hended]
        refine ⟨rfl, ?_⟩
        rw [Socket.stream, Input.stream, hr', hu']
      | false =>
        have hall := Stream.takeLine_fst_of_not_ended hended
        have hround : (lineRound line).run s =
            (.returned (.inl (line ++ i.buffer.unread)), { s with input := i' }) := by
          rw [lineRound, Coro.bind_returned _ hpeek, if_neg hne, Coro.bind_returned _ hseek',
            if_neg (by rw [hended]; simp), Coro.run_pure, hall]
        have hdrained : i'.buffer.unread = [] := by
          rw [hu', hall, List.drop_length]
        have hafter : i'.stream = Stream.ofRecvs i.recvs := by
          rw [Input.stream_of_drained hdrained, hr']
        have hless : ({ s with input := i' } : Socket).pending.length < n := by
          have hpos := List.length_pos_iff.mpr hne
          rw [Socket.pending, Input.pending_eq_leading, ← Socket.stream, hstream,
            Stream.leading_prepend, List.length_append] at hn
          rw [Socket.pending, Input.pending_eq_leading, hafter]
          omega
        rw [Coro.iterate_inl hround, hstream, Stream.lineLoop_open hended, ← hafter]
        exact ih _ { s with input := i' } hless
    · have hpeek : Socket.peek.run s = (.returned [], { s with input := i }) :=
        Socket.run_onInput_eq hrun
      have hround : (lineRound line).run s = (.returned (.inr (line, false)),
          { s with input := i }) := by
        rw [lineRound, Coro.bind_returned _ hpeek, if_pos rfl, Coro.run_pure]
      rw [Coro.iterate_inr hround]
      simp [Socket.stream, hst', hst, Stream.lineLoop, Stream.lineFrom]
    · have hpeek : Socket.peek.run s = (.suspended, { s with input := i }) :=
        Socket.run_onInput_eq hrun
      have hround : (lineRound line).run s = (.suspended, { s with input := i }) := by
        rw [lineRound, Coro.bind_suspended _ hpeek]
      rw [Coro.iterate_succ, hround]
      simp [Coro.leave, Socket.stream, hst', hst, Stream.lineLoop, Stream.lineFrom]
    · have hpeek : Socket.peek.run s = (.threw (.systemError "socket peek failed: " errnum),
          { s with input := i }) := Socket.run_onInput_eq hrun
      have hround : (lineRound line).run s = (.threw (.systemError "socket peek failed: " errnum),
          { s with input := i }) := by
        rw [lineRound, Coro.bind_threw _ hpeek]
      rw [Coro.iterate_succ, hround]
      simp [Coro.leave, Socket.stream, hst', hst, Stream.lineLoop, Stream.lineFrom]

/-- A line is read as it would be byte by byte, or not at all in the same way. -/
theorem readHttpLine_refines :
    Coro.Refines Socket.stream readHttpLine Stream.readHttpLine :=
  Coro.Refines.bind (fun s => lineLoop_refines (s.pending.length + 1) [] s (Nat.lt_succ_self _))
    fun _ => .pure _

theorem readHttpLine_keeps : Coro.Keeps (fun s : Socket => (s.output, s.isShutdown))
    readHttpLine := by
  have hinput : ∀ {α : Type} (t : Coro Input Exn α),
      Coro.Keeps (fun s : Socket => (s.output, s.isShutdown)) (Socket.onInput t) :=
    fun _ _ => rfl
  refine Coro.Keeps.bind (.loop (fun line => ?_) _) fun _ => .pure _
  refine (hinput _).bind fun chunk => .ite (.pure _) ?_
  exact (hinput _).bind fun _ => .ite (.pure _) (.pure _)

theorem readHttpLine_respects : Coro.Respects Socket.Alike readHttpLine := by
  intro s s' h
  obtain ⟨hout, hstream⟩ := readHttpLine_refines.respects s s' h.stream
  have hrest := Prod.mk.inj (readHttpLine_keeps s)
  have hrest' := Prod.mk.inj (readHttpLine_keeps s')
  refine ⟨hout, hstream, ?_, ?_⟩
  · rw [hrest.1, hrest'.1]
    exact h.output
  · rw [hrest.2, hrest'.2]
    exact h.isShutdown

/-! ## Bodies -/

namespace HttpBody

variable {α γ ε : Type}

/-- The same body on sockets that are alike. -/
def Alike (b b' : BodySocket) : Prop := b.body = b'.body ∧ b.sock.Alike b'.sock

theorem onSocket_respects {t : Coro Socket ε α} (h : Coro.Respects Socket.Alike t) :
    Coro.Respects Alike (onSocket t) :=
  .focus (fun _ _ hb => hb.2) (fun _ _ _ _ hs hb => ⟨hb.1, hs⟩) h

theorem setBody_respects {f : HttpBody → HttpBody} :
    Coro.Respects Alike (Coro.modify fun b => { b with body := f b.body } : Coro _ ε Unit) :=
  .modify fun _ _ h => ⟨congrArg f h.1, h.2⟩

theorem startChunk_respects (line : HttpLine) : Coro.Respects Alike (startChunk line) := by
  refine .ite (.fail _) ?_
  split
  · exact .bind (setBody_respects (f := fun _ => _)) fun _ =>
      (onSocket_respects readHttpLine_respects).bind fun _ => .pure _
  · exact .bind (setBody_respects (f := fun body => { body with incoming := _ })) fun _ => .pure _
  · exact .fail _

theorem hasIncoming_respects : Coro.Respects Alike hasIncoming := by
  refine .get_bind (fun b b' h => by rw [h.1]) fun b => .ite (.pure _) ?_
  exact (onSocket_respects readHttpLine_respects).bind fun line => .ite
    ((onSocket_respects readHttpLine_respects).bind fun _ => startChunk_respects _)
    (startChunk_respects _)

theorem transferRoundOf_respects {more : γ → Coro BodySocket ε Bool}
    {op : γ → Nat → Coro Socket ε γ} (hmore : ∀ c, Coro.Respects Alike (more c))
    (hop : ∀ c n, Coro.Respects Socket.Alike (op c n)) (size : Int) (acc : γ × Nat) :
    Coro.Respects Alike (transferRoundOf more op size acc) := by
  refine .ite ((hmore _).bind fun more => .ite ?_ (.pure _)) (.pure _)
  refine .get_bind (fun b b' h => by rw [h.1]) fun b => ?_
  exact (onSocket_respects (hop _ _)).bind fun got =>
    (setBody_respects (f := fun body => { body with incoming := body.incoming - _ })).bind
      fun _ => .pure _

theorem transfer_respects {op : γ → Nat → Coro Socket Exn γ}
    (hop : ∀ c n, Coro.Respects Socket.Alike (op c n)) (size : Int) (init : γ) :
    Coro.Respects Alike (transfer op size init) :=
  .loop (fun b b' h => by rw [h.2.pending_eq])
    (transferRoundOf_respects (fun _ => hasIncoming_respects) hop size) _

theorem transferStoring_respects {op : γ → Nat → Coro Socket (γ × Exn) γ}
    (hop : ∀ c n, Coro.Respects Socket.Alike (op c n)) (size : Int) (init : γ) :
    Coro.Respects Alike (transferStoring op size init) :=
  .loop (fun b b' h => by rw [h.2.pending_eq])
    (transferRoundOf_respects (fun _ => hasIncoming_respects.mapError) hop size) _

theorem readIntoStoring_respects (dest : Bytes) (size : Int) :
    Coro.Respects Alike (readIntoStoring dest size) :=
  transferStoring_respects
    (fun _ _ => (Socket.readIntoStoring_respects _ _).mapError.bind fun _ => .pure _) _ _

theorem readStoring_respects (size : Int) : Coro.Respects Alike (readStoring size) :=
  transferStoring_respects
    (fun _ _ => (Socket.readStoring_respects _ _).mapError.bind fun _ => .pure _) _ _

theorem skip_respects (size : Int) : Coro.Respects Alike (skip size) :=
  (transfer_respects (fun _ _ => (Socket.skip_respects _ _).bind fun _ => .pure _) _ _).bind
    fun _ => .pure _

end HttpBody

/-! ## Responses -/

namespace HttpOutput

variable {α : Type}

/-- The same response on sockets that are alike. -/
def Alike (o o' : OutputSocket) : Prop := o.res = o'.res ∧ o.sock.Alike o'.sock

theorem onSocket_respects {t : Coro Socket Exn α} (h : Coro.Respects Socket.Alike t) :
    Coro.Respects Alike (onSocket t) :=
  .focus (fun _ _ ho => ho.2) (fun _ _ _ _ hs ho => ⟨ho.1, hs⟩) h

theorem setRes_respects (f : HttpOutput → HttpOutput) :
    Coro.Respects Alike (Coro.modify fun o => { o with res := f o.res } : Coro _ Exn Unit) :=
  .modify fun _ _ h => ⟨congrArg f h.1, h.2⟩

theorem rawWrite_respects (src : Bytes) : Coro.Respects Alike (rawWrite src) :=
  onSocket_respects (Socket.write_respects src)

theorem writeHeaderLines_respects (lines : List (Bytes × Bytes)) :
    Coro.Respects Alike (writeHeaderLines lines) := by
  induction lines with
  | nil => exact .pure _
  | cons line lines ih =>
    exact (rawWrite_respects _).bind fun _ => (rawWrite_respects _).bind fun _ =>
      (rawWrite_respects _).bind fun _ => (rawWrite_respects _).bind fun _ => ih

theorem writeHeaders_respects : Coro.Respects Alike writeHeaders := by
  refine .get_bind (fun o o' h => by rw [h.1]) fun o => .ite (.pure _) ?_
  refine (setRes_respects fun res =>
    { res with chunkedEncoding := encodesChunked res.headers }).bind fun _ =>
      (rawWrite_respects _).bind fun _ => ?_
  cases getStatusReasonPhrase o.res.status with
  | error e => exact .fail _
  | ok phrase =>
    exact (rawWrite_respects _).bind fun _ => (rawWrite_respects _).bind fun _ =>
      (writeHeaderLines_respects _).bind fun _ => (rawWrite_respects _).bind fun _ =>
        setRes_respects fun res => { res with headersWritten := true }

theorem write_respects (src : Bytes) : Coro.Respects Alike (write src) := by
  refine .ite (.fail _) (writeHeaders_respects.bind fun _ => ?_)
  refine .get_bind (fun o o' h => by rw [h.1]) fun o => .ite ?_ (rawWrite_respects _)
  exact (rawWrite_respects _).bind fun _ => (rawWrite_respects _).bind fun _ =>
    (rawWrite_respects _).bind fun _ => rawWrite_respects _

theorem finish_respects : Coro.Respects Alike finish := by
  refine writeHeaders_respects.bind fun _ => ?_
  refine .get_bind (fun o o' h => by rw [h.1]) fun o => ?_
  have hflush := onSocket_respects Socket.flush_respects
  exact Coro.Respects.ite ((rawWrite_respects _).bind fun _ => hflush) hflush

end HttpOutput

/-! ## Exchanges -/

namespace Exchange

variable {α ε : Type}

/-- The same exchange on sockets that are alike. -/
structure Alike (x x' : Exchange) : Prop where
  body : x.body = x'.body
  res : x.res = x'.res
  sock : x.sock.Alike x'.sock
  received : x.received = x'.received

theorem onBody_respects {t : Coro BodySocket ε α} (h : Coro.Respects HttpBody.Alike t) :
    Coro.Respects Alike (onBody t) :=
  .focus (fun _ _ hx => ⟨hx.body, hx.sock⟩)
    (fun _ _ _ _ hb hx => ⟨hb.1, hx.res, hb.2, hx.received⟩) h

theorem onOutput_respects {t : Coro OutputSocket Exn α} (h : Coro.Respects HttpOutput.Alike t) :
    Coro.Respects Alike (onOutput t) :=
  .focus (fun _ _ hx => ⟨hx.res, hx.sock⟩)
    (fun _ _ _ _ ho hx => ⟨hx.body, ho.1, ho.2, hx.received⟩) h

theorem setRes_respects (f : HttpOutput → HttpOutput) :
    Coro.Respects Alike (Coro.modify fun x => { x with res := f x.res } : Coro _ Exn Unit) :=
  .modify fun _ _ h => ⟨h.body, congrArg f h.res, h.sock, h.received⟩

theorem perform_respects (op : ExchangeOp) : Coro.Respects Alike (perform op) := by
  cases op with
  | hasIncoming => exact (onBody_respects HttpBody.hasIncoming_respects).attempt
  | readInto dest size =>
    exact (onBody_respects (HttpBody.readIntoStoring_respects dest size)).attempt
  | read size =>
    refine (onBody_respects (HttpBody.readStoring_respects size)).attempt.bind fun r => ?_
    refine Coro.Respects.bind (.modify fun x x' h => ?_) fun _ => .pure _
    exact ⟨h.body, h.res, h.sock, by rw [h.received]⟩
  | skip size => exact (onBody_respects (HttpBody.skip_respects size)).attempt
  | setStatus status => exact (setRes_respects fun res => res.setStatus status).bind fun _ => .pure _
  | setHeader name value =>
    exact (setRes_respects fun res => res.setHeader name value).bind fun _ => .pure _
  | setContentLength len =>
    refine .get_bind (fun x x' h => by rw [h.res]) fun x => ?_
    cases x.res.setContentLength len with
    | ok res => exact (setRes_respects fun _ => res).bind fun _ => .pure _
    | error exn => exact .pure _
  | write src => exact (onOutput_respects (HttpOutput.write_respects src)).attempt
  | finish => exact (onOutput_respects HttpOutput.finish_respects).attempt

theorem complete_respects (p : Serve) : Coro.Respects Alike (complete p) :=
  ((Program.run_respects perform_respects p).bind fun _ => .ofExcept _).bind fun _ =>
    (onOutput_respects HttpOutput.finish_respects).bind fun _ =>
      onBody_respects HttpBody.hasIncoming_respects

end Exchange

/-! ## Connections -/

namespace HttpServer

variable {E α : Type}

/-- The same calls so far, on sockets that are alike. -/
def Alike (c c' : Connection E) : Prop := c.sock.Alike c'.sock ∧ c.calls = c'.calls

theorem onSocket_respects {t : Coro Socket Exn α} (h : Coro.Respects Socket.Alike t) :
    Coro.Respects (Alike (E := E)) (onSocket t) :=
  .focus (fun _ _ hc => hc.1) (fun _ _ _ _ hs hc => ⟨hs, hc.2⟩) h

theorem readHeaders_respects (req : HttpRequest) :
    Coro.Respects Socket.Alike (readHeaders req) := by
  refine .loop (fun s s' h => by rw [h.pending_eq]) (fun req => ?_) _
  refine readHttpLine_respects.bind fun line => .ite ?_ (.pure _)
  exact .ite (.pure _) (.pure _)

theorem onExchange_respects (server : HttpServer E) (body : HttpBody)
    {calls : Exchange → List (Call E)}
    (hcalls : ∀ x x' : Exchange, x.received = x'.received → calls x = calls x')
    {t : Coro Exchange Exn α} (h : Coro.Respects Exchange.Alike t) :
    Coro.Respects Alike (onExchange server body calls t) :=
  .focus (fun _ _ hc => ⟨rfl, rfl, hc.1, rfl⟩)
    (fun _ _ _ _ hx hc => ⟨hx.sock, by rw [hc.2, hcalls _ _ hx.received]⟩) h

theorem respond_respects (server : HttpServer E) (endpoint : Option E) (req : HttpRequest)
    (body : HttpBody) : Coro.Respects Alike (respond server endpoint req body) := by
  cases endpoint with
  | none => exact onExchange_respects server body (fun _ _ _ => rfl) (Exchange.complete_respects _)
  | some e =>
    exact onExchange_respects server body (fun _ _ h => by rw [h]) (Exchange.complete_respects _)

theorem handleRequest_respects (server : HttpServer E) (req : HttpRequest) (body : HttpBody) :
    Coro.Respects Alike (handleRequest server req body) := by
  unfold handleRequest
  split
  · exact .fail _
  · exact (respond_respects server _ _ body).bind fun _ => .pure _

theorem connectionRound_respects (server : HttpServer E) (u : Unit) :
    Coro.Respects Alike (connectionRound server u) := by
  refine (onSocket_respects readHttpLine_respects).bind fun reqLine => .ite (.pure _) ?_
  refine .ite (.pure _) ?_
  refine (onSocket_respects (readHeaders_respects _)).bind fun headers => .ite (.pure _) ?_
  cases headers.2.framing with
  | none => exact .pure _
  | some body => exact handleRequest_respects server headers.2 body

theorem onConnection_respects (server : HttpServer E) :
    Coro.Respects Alike (onConnection server) :=
  Coro.Respects.bind (.loop (fun c c' h => by rw [h.1.awaited_eq]) (connectionRound_respects server) _)
    fun _ => onSocket_respects Socket.shutdown_respects

/-- Two connections whose recvs bring the same bytes, failures and end, in segments and buffers of any
sizes, and whose sends succeed, taking any number of bytes at a time: the server leaves off in the
same way, has made the same calls and sent the same bytes. -/
theorem onConnection_segmentation (server : HttpServer E) {recvs recvs' : List RecvCompletion}
    {sends sends' : Nat → SendCompletion} (hrecvs : Stream.ofRecvs recvs = Stream.ofRecvs recvs')
    (hsends : ∀ i, ∃ extra, sends i = .accepted extra)
    (hsends' : ∀ i, ∃ extra, sends' i = .accepted extra) :
    ∃ o c c', server.onConnection.run ⟨Socket.new recvs sends, []⟩ = (o, c) ∧
      server.onConnection.run ⟨Socket.new recvs' sends', []⟩ = (o, c') ∧
      c.calls = c'.calls ∧ c.sock.output.sent = c'.sock.output.sent ∧
      c.sock.stream = c'.sock.stream ∧ c.sock.isShutdown = c'.sock.isShutdown := by
  obtain ⟨hout, hsock, hcalls⟩ := onConnection_respects server ⟨Socket.new recvs sends, []⟩
    ⟨Socket.new recvs' sends', []⟩ ⟨Socket.alike_new hrecvs hsends hsends', rfl⟩
  rcases hrun : server.onConnection.run ⟨Socket.new recvs sends, []⟩ with ⟨o, c⟩
  rcases hrun' : server.onConnection.run ⟨Socket.new recvs' sends', []⟩ with ⟨o', c'⟩
  rw [hrun, hrun'] at hout hsock hcalls
  obtain rfl : o = o' := hout
  exact ⟨o, c, c', rfl, rfl, hcalls, hsock.output.sent, hsock.stream, hsock.isShutdown⟩

/-- A request in one segment, and byte by byte, to a client that takes all at once, and byte by byte. -/
theorem onConnection_segmentation_request :
    let request := ascii "GET / HTTP/1.1\r\n\r\n"
    let server : HttpServer Unit :=
      { router := { HttpRouter.new with getEndpoint := some () }
        serve := fun _ _ => .done (.ok ())
        traversal := id }
    let recvs : List RecvCompletion :=
      [.data { bytes := request, nonempty := by decide, length_le := by decide }, .closed]
    let recvs' : List RecvCompletion := (request.map Segment.single).map .data ++ [.closed]
    ∃ o c c', server.onConnection.run ⟨Socket.new recvs fun _ => .accepted 8191, []⟩ = (o, c) ∧
      server.onConnection.run ⟨Socket.new recvs' fun _ => .accepted 0, []⟩ = (o, c') ∧
      c.calls = c'.calls ∧ c.sock.output.sent = c'.sock.output.sent ∧
      c.sock.stream = c'.sock.stream ∧ c.sock.isShutdown = c'.sock.isShutdown :=
  onConnection_segmentation _ (by decide) (fun _ => ⟨8191, rfl⟩) fun _ => ⟨0, rfl⟩

end HttpServer

end CppEvent
