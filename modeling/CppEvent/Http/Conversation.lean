import CppEvent.Http.OneResponse
import CppEvent.Http.Pipeline
import CppEvent.Http.Segmentation

/-!
# Conversations

What comes back to a client that sends requests in a row. Whatever the endpoints are, what a served
request puts out is what its endpoint says on its response, whole and flushed before the next request
is read (`onConnection_sent`); and the client, with the readers of this repository, takes the responses
apart again, one for each request, in order (`conversation`).
-/

namespace CppEvent

open Coroutine OutputCall

variable {E α : Type}

/-! ## What an endpoint says -/

namespace ExchangeOp

/-- The calls on the response that an operation amounts to. -/
def outputCalls : ExchangeOp → List OutputCall
  | .setStatus status => [.setStatus status]
  | .setHeader name value => [.setHeader name value]
  | .setContentLength len => if len < 0 then [] else [.setHeader contentLength (toChars 10 len.toNat)]
  | .write src => [.write src]
  | .finish => [.finish]
  | .hasIncoming | .readInto _ _ | .read _ | .skip _ => []

end ExchangeOp

/-- The calls on the response that a program makes, in order. -/
def said (p : Program ExchangeOp (fun op => Except op.Thrown op.Result) α) (t : Script) :
    List OutputCall :=
  (p.performed Script.answer t).flatMap ExchangeOp.outputCalls

namespace OutputCall

theorem Proper.of_append {calls calls' : List OutputCall} (h : Proper (calls ++ calls')) :
    Proper calls ∧ Proper calls' := by
  obtain ⟨hordered, hordered', -⟩ := List.pairwise_append.mp h.ordered
  exact ⟨⟨fun status hmem => h.phrase status (List.mem_append_left _ hmem),
      fun src hmem => h.nonempty src (List.mem_append_left _ hmem), hordered⟩,
    ⟨fun status hmem => h.phrase status (List.mem_append_right _ hmem),
      fun src hmem => h.nonempty src (List.mem_append_right _ hmem), hordered'⟩⟩

theorem texts_append (res : HttpOutput) (calls calls' : List OutputCall) :
    texts res (calls ++ calls') = texts res calls ++ texts (calls.foldl after res) calls' := by
  induction calls generalizing res with
  | nil => rfl
  | cons call calls ih => rw [List.cons_append, texts, ih, texts, List.append_assoc]; rfl

theorem canEnd_after {call : OutputCall} (h : Proper [call]) {res : HttpOutput} (hend : res.CanEnd) :
    (call.after res).CanEnd := by
  have hsend := (HttpOutput.sendHeaders_ok_iff res).mpr hend
  cases call with
  | setStatus status => exact .inr (h.phrase status List.mem_cons_self)
  | setHeader name value =>
    obtain ⟨hsame, hstatus, -⟩ := setHeader_keeps res name value
    rw [after, HttpOutput.CanEnd, hsame, hstatus]
    exact hend
  | write src => exact .inl (HttpOutput.sendHeaders_sent hsend)
  | finish => exact .inl (HttpOutput.sendHeaders_sent hsend)

end OutputCall

/-! ## Reading leaves what was written alone -/

namespace HttpBody

/-- What no read of a body touches. -/
def writing (b : BodySocket) : Output := b.sock.output

theorem onSocket_keeps {t : Coro Socket Exn α} (h : Coro.Keeps (fun s : Socket => s.output) t) :
    Coro.Keeps writing (onSocket t) := fun b => h b.sock

theorem readHttpLine_keeps_output : Coro.Keeps (fun s : Socket => s.output) readHttpLine :=
  fun s => congrArg Prod.fst (readHttpLine_keeps s)

theorem startChunk_keeps (line : HttpLine) : Coro.Keeps writing (startChunk line) := by
  refine .ite (.fail _) ?_
  split
  · exact .bind (.modify fun _ => rfl) fun _ =>
      (onSocket_keeps readHttpLine_keeps_output).bind fun _ => .pure _
  · exact .bind (.modify fun _ => rfl) fun _ => .pure _
  · exact .fail _

theorem hasIncoming_keeps : Coro.Keeps writing hasIncoming := by
  refine .bind .get fun b => .ite (.pure _) ?_
  exact (onSocket_keeps readHttpLine_keeps_output).bind fun line => .ite
    ((onSocket_keeps readHttpLine_keeps_output).bind fun _ => startChunk_keeps _)
    (startChunk_keeps _)

theorem transfer_keeps {γ : Type} {op : γ → Nat → Coro Socket Exn γ}
    (hop : ∀ c n, Coro.Keeps (fun s : Socket => s.output) (op c n)) (size : Int) (init : γ) :
    Coro.Keeps writing (transfer op size init) := by
  refine .loop (fun acc => .ite ?_ (.pure _)) _
  refine hasIncoming_keeps.bind fun more => .ite ?_ (.pure _)
  exact .bind .get fun b => (onSocket_keeps (hop _ _)).bind fun got =>
    .bind (.modify fun _ => rfl) fun _ => .pure _

theorem readInto_keeps (dest : Bytes) (size : Int) : Coro.Keeps writing (readInto dest size) :=
  transfer_keeps (fun _ _ => .bind (fun _ => rfl) fun _ => .pure _) size dest

theorem read_keeps (size : Int) : Coro.Keeps writing (read size) :=
  transfer_keeps (fun _ _ => .bind (fun _ => rfl) fun _ => .pure _) size []

theorem readIntoStoring_keeps (dest : Bytes) (size : Int) :
    Coro.Keeps writing (readIntoStoring dest size) := by
  have h := readInto_keeps dest size
  rw [← mapError_readIntoStoring] at h
  exact h.of_mapError

theorem readStoring_keeps (size : Int) : Coro.Keeps writing (readStoring size) := by
  have h := read_keeps size
  rw [← mapError_readStoring] at h
  exact h.of_mapError

theorem skip_keeps (size : Int) : Coro.Keeps writing (skip size) :=
  .bind (transfer_keeps (fun _ _ => .bind (fun _ => rfl) fun _ => .pure _) size ()) fun _ => .pure _

end HttpBody

namespace Exchange

theorem onBody_keeps {ε : Type} {t : Coro BodySocket ε α} (h : Coro.Keeps HttpBody.writing t) :
    Coro.Keeps (fun e : Exchange => e.sock.output) (onBody t) :=
  fun e => h { body := e.body, sock := e.sock }

theorem perform_keeps {op : ExchangeOp} (h : op.outputCalls = []) :
    Coro.Keeps (fun e : Exchange => e.sock.output) (perform op) := by
  have hattempt : ∀ {β ε : Type} {t : Coro Exchange ε β},
      Coro.Keeps (fun e : Exchange => e.sock.output) t →
        Coro.Keeps (fun e : Exchange => e.sock.output) (Coro.attempt t : Coro Exchange Exn _) :=
    fun ht e => by rw [Coro.run_attempt_snd]; exact ht e
  cases op with
  | hasIncoming => exact hattempt (onBody_keeps HttpBody.hasIncoming_keeps)
  | readInto dest size => exact hattempt (onBody_keeps (HttpBody.readIntoStoring_keeps dest size))
  | read size =>
    exact .bind (hattempt (onBody_keeps (HttpBody.readStoring_keeps size))) fun r =>
      .bind (.modify fun _ => rfl) fun _ => .pure _
  | skip size => exact hattempt (onBody_keeps (HttpBody.skip_keeps size))
  | setContentLength len =>
    refine .bind .get fun e => ?_
    split
    · exact .bind (.modify fun _ => rfl) fun _ => .pure _
    · exact .pure _
  | setStatus status => cases h
  | setHeader name value => cases h
  | write src => cases h
  | finish => cases h

/-- While sends succeed and the calls are proper, an operation puts out what it says. -/
theorem perform_says {op : ExchangeOp} {rest : Bytes} {t : Script} {e : Exchange} (h : t.Of rest e)
    (hend : t.res.CanEnd) (hproper : Proper op.outputCalls) :
    ∃ e', (perform op).run e = (.returned (Script.answer op t).1, e') ∧
      (Script.answer op t).2.Of rest e' ∧
      (Script.answer op t).2.res = op.outputCalls.foldl after t.res ∧
      (Script.answer op t).2.res.CanEnd ∧
      e'.sock.output.written = e.sock.output.written ++ texts t.res op.outputCalls := by
  obtain ⟨e', hrun, hof⟩ := perform_run op h
  have hsilent : op.outputCalls = [] →
      e'.sock.output.written = e.sock.output.written ++ texts t.res op.outputCalls := fun hnil => by
    have hkept := perform_keeps hnil e
    rw [hrun] at hkept
    rw [hnil, texts, List.append_nil]
    exact congrArg Output.written hkept
  have hsend := (HttpOutput.sendHeaders_ok_iff t.res).mpr hend
  have hres : e.res = t.res := h.2.1
  refine ⟨e', hrun, hof, ?_⟩
  cases op with
  | hasIncoming => exact ⟨rfl, hend, hsilent rfl⟩
  | readInto dest size => exact ⟨rfl, hend, hsilent rfl⟩
  | read size => exact ⟨rfl, hend, hsilent rfl⟩
  | skip size => exact ⟨rfl, hend, hsilent rfl⟩
  | setStatus status =>
    obtain rfl : { e with res := e.res.setStatus status } = e' := (Prod.mk.inj hrun).2
    exact ⟨rfl, canEnd_after hproper hend, (List.append_nil _).symm⟩
  | setHeader name value =>
    obtain rfl : { e with res := e.res.setHeader name value } = e' := (Prod.mk.inj hrun).2
    exact ⟨rfl, canEnd_after hproper hend, (List.append_nil _).symm⟩
  | setContentLength len =>
    by_cases hneg : len < 0
    · have hcalls : (ExchangeOp.setContentLength len).outputCalls = [] := if_pos hneg
      have herror : t.res.setContentLength len =
          .error (.runtimeError "http_output set_content_len: value less than 0") := if_pos hneg
      have hres' : (Script.answer (.setContentLength len) t).2.res = t.res := by
        simp only [Script.answer, herror]
      exact ⟨by rw [hres', hcalls]; rfl, by rw [hres']; exact hend, hsilent hcalls⟩
    · have hcalls : (ExchangeOp.setContentLength len).outputCalls =
          [.setHeader contentLength (toChars 10 len.toNat)] := if_neg hneg
      have hok : t.res.setContentLength len =
          .ok (t.res.setHeader contentLength (toChars 10 len.toNat)) := if_neg hneg
      have hres' : (Script.answer (.setContentLength len) t).2.res =
          t.res.setHeader contentLength (toChars 10 len.toNat) := by
        simp only [Script.answer, hok]
      rw [hcalls] at hproper ⊢
      refine ⟨hres', by rw [hres']; exact canEnd_after hproper hend, ?_⟩
      simp only [perform, Coro.run_get_bind, hres, hok, Coro.run_modify_bind, Coro.run_pure] at hrun
      obtain rfl := (Prod.mk.inj hrun).2
      exact (List.append_nil _).symm
  | write src =>
    have hne : src ≠ [] := hproper.nonempty src List.mem_cons_self
    obtain ⟨s', hwrite, -⟩ :=
      HttpOutput.write_run (o := { res := e.res, sock := e.sock }) h.2.2.2 src
    have hsent : t.res.send src = (.ok (), t.res.sendHeaders.2) := by
      rw [HttpOutput.send, if_neg hne]
      exact Prod.ext hsend rfl
    simp only [hres, hsent, Outcome.ofExcept] at hwrite
    rw [perform, Coro.attempt_returned (onOutput_run (by rw [hres]; exact hwrite))] at hrun
    obtain rfl := (Prod.mk.inj hrun).2
    refine ⟨?_, ?_, ?_⟩
    · show (t.res.send src).2 = t.res.sendHeaders.2
      rw [hsent]
    · simp only [Script.answer, hsent]
      exact canEnd_after hproper hend
    · show _ = e.sock.output.written ++ (text t.res (.write src) ++ [])
      rw [List.append_nil]
      exact (HttpOutput.write_returned hwrite).2
  | finish =>
    obtain ⟨s', hfinish, -⟩ :=
      HttpOutput.finish_run (o := { res := e.res, sock := e.sock }) h.2.2.2
    simp only [hres, hsend, Outcome.ofExcept] at hfinish
    rw [perform, Coro.attempt_returned (onOutput_run (by rw [hres]; exact hfinish))] at hrun
    obtain rfl := (Prod.mk.inj hrun).2
    refine ⟨rfl, canEnd_after hproper hend, ?_⟩
    show _ = e.sock.output.written ++ (text t.res .finish ++ [])
    rw [List.append_nil]
    exact (HttpOutput.finish_returned hfinish).2.1

/-- While sends succeed and its calls are proper, a program puts out what it says. -/
theorem run_says (p : Program ExchangeOp (fun op => Except op.Thrown op.Result) α) {rest : Bytes}
    {t : Script} {e : Exchange} (h : t.Of rest e) (hend : t.res.CanEnd) (hproper : Proper (said p t)) :
    ∃ e', (p.run perform).run e = (.returned (p.evaluate Script.answer t).1, e') ∧
      (p.evaluate Script.answer t).2.Of rest e' ∧
      (p.evaluate Script.answer t).2.res = (said p t).foldl after t.res ∧
      (p.evaluate Script.answer t).2.res.CanEnd ∧
      e'.sock.output.written = e.sock.output.written ++ texts t.res (said p t) := by
  induction p generalizing t e with
  | done a => exact ⟨e, rfl, h, rfl, hend, (List.append_nil _).symm⟩
  | call op next ih =>
    have hsaid : said (.call op next) t =
        op.outputCalls ++ said (next (Script.answer op t).1) (Script.answer op t).2 := rfl
    rw [hsaid] at hproper ⊢
    obtain ⟨hop, hnext⟩ := hproper.of_append
    obtain ⟨e₁, hrun₁, hof₁, hres₁, hend₁, hw₁⟩ := perform_says h hend hop
    obtain ⟨e₂, hrun₂, hof₂, hres₂, hend₂, hw₂⟩ := ih _ hof₁ hend₁ hnext
    refine ⟨e₂, by rw [Program.run, Coro.bind_returned _ hrun₁]; exact hrun₂, hof₂, ?_, hend₂, ?_⟩
    · rw [List.foldl_append, ← hres₁]
      exact hres₂
    · rw [hw₂, hw₁, texts_append, hres₁, List.append_assoc]

/-- A request that is served to the end: its response is out as a whole, and what comes next is behind
its body. -/
theorem complete_says {p : Serve} {rest : Bytes} {t : Script} {e : Exchange} (h : t.Of rest e)
    (hend : t.res.CanEnd) (hproper : Proper (said p t))
    (hok : (p.evaluate Script.answer t).1 = .ok ())
    (hdrained : (p.evaluate Script.answer t).2.pieces = []) :
    ∃ e', (complete p).run e = (.returned false, e') ∧ e'.sock.output.SendsSucceed ∧
      e'.sock.pending = rest ∧ e'.sock.output.written = e'.sock.output.sent ∧
      e'.sock.output.sent = e.sock.output.written ++ texts t.res (said p t ++ [.finish]) := by
  obtain ⟨e₁, hrun₁, hof₁, hres₁, hend₁, hw₁⟩ := run_says p h hend hproper
  obtain ⟨o, e', hrun, -, hends⟩ := finish_run hof₁
  rw [if_pos hend₁] at hends
  obtain ⟨rfl, hsends, hpending⟩ := hends
  have hserve : (serve p).run e = (.returned (), e₁) := by
    rw [serve, Coro.bind_returned _ hrun₁, hok]
    rfl
  -- the response is out when `end` returns, and the look at the body leaves it so
  obtain ⟨⟨⟩, e₂, hfinish, hbody⟩ := Coro.returned_of_bind hrun
  rcases hout : HttpOutput.finish.run { res := e₁.res, sock := e₁.sock } with ⟨o₂, x⟩
  obtain ⟨rfl, rfl⟩ := Prod.mk.inj ((onOutput_run hout).symm.trans hfinish)
  obtain ⟨-, hw₂, hsent⟩ := HttpOutput.finish_returned hout
  have hkept := onBody_keeps HttpBody.hasIncoming_keeps
    { e₁ with res := x.res, sock := x.sock }
  rw [hbody] at hkept
  have hkept' : e'.sock.output = x.sock.output := hkept
  refine ⟨e', ?_, hsends, hpending hdrained, ?_, ?_⟩
  · rw [complete, Coro.bind_returned _ hserve, hrun, hdrained]
    rfl
  · rw [hkept', hsent]
  · rw [hkept', hsent, hw₂, texts_append, ← hres₁, ← hof₁.2.1]
    show e₁.sock.output.written ++ _ = _
    rw [hw₁, List.append_assoc]
    simp only [texts, text, List.append_nil]

end Exchange

/-! ## One message -/

namespace HttpServer

/-- What serves a message: an endpoint, or the server itself where none matches. -/
def program (server : HttpServer E) (m : Message) : Option Serve :=
  match server.router.matchPath m.method m.path [] with
  | .ok (some e, params) => some (server.serve e (m.parsed.setPathParams params))
  | .ok (none, _) => some notFound
  | .error _ => none

/-- What serves the message reads the body to the end, does not throw and makes proper calls. -/
structure Serves (server : HttpServer E) (m : Message) (p : Serve) : Prop where
  program : server.program m = some p
  returns : (p.evaluate Script.answer (server.script m.body.left)).1 = .ok ()
  drained : (p.evaluate Script.answer (server.script m.body.left)).2.pieces = []
  proper : Proper (said p (server.script m.body.left))

def reply (server : HttpServer E) (m : Message) : Bytes :=
  match server.program m with
  | some p => texts { traversal := server.traversal } (said p (server.script m.body.left) ++ [.finish])
  | none => []

theorem reply_eq {server : HttpServer E} {m : Message} {p : Serve} (h : server.program m = some p) :
    server.reply m =
      texts { traversal := server.traversal } (said p (server.script m.body.left) ++ [.finish]) := by
  rw [reply, h]

/-- From `c` to `c'` these bytes were sent, and `rest` is read next. -/
structure Replied (c : Connection E) (bs rest : Bytes) (c' : Connection E) : Prop where
  sends : c'.sock.output.SendsSucceed
  pending : c'.sock.pending = rest
  flushed : c'.sock.output.written = c'.sock.output.sent
  sent : c'.sock.output.sent = c.sock.output.written ++ bs

theorem respond_says {server : HttpServer E} {m : Message} {p : Serve} (h : server.Serves m p)
    {c : Connection E} {rest : Bytes} (hp : c.sock.pending = m.body.left.wire ++ rest)
    (hsends : c.sock.output.SendsSucceed) (calls : Exchange → List (Call E)) :
    ∃ c', (onExchange server m.body.left.state calls (Exchange.complete p)).run c =
        (.returned false, c') ∧ Replied c (server.reply m) rest c' := by
  obtain ⟨e', hrun, hsends', hpending, hflushed, hsent⟩ := Exchange.complete_says
    (of_opened server hp hsends) (.inr rfl) h.proper h.returns h.drained
  exact ⟨_, onExchange_run hrun, hsends', hpending, hflushed, by rw [reply_eq h.program]; exact hsent⟩

end HttpServer

/-! ## The client -/

/-- A response: its status, the headers that were set and the data in pieces. -/
structure Response where
  status : HttpStatus
  calls : List HeaderCall
  writes : List Bytes

namespace Response

open HeaderCall

def data (r : Response) : Bytes := r.writes.flatten

/-- The output when the response begins to go out. -/
def output (r : Response) (traversal : HeaderMap → List (Bytes × Bytes)) : HttpOutput :=
  { status := r.status, headers := Header.store (headers r.calls) [], traversal := traversal }

def text (r : Response) (traversal : HeaderMap → List (Bytes × Bytes)) : Bytes :=
  (r.output traversal).headText ++ (r.writes.flatMap (r.output traversal).sendHeaders.2.dataText ++
    (r.output traversal).sendHeaders.2.endText)

/-- The status has a reason phrase; the data comes in chunks, or a length is set that is right. -/
structure Framed (r : Response) : Prop where
  phrase : (getStatusReasonPhrase r.status).isOk
  writes : ∀ w ∈ r.writes, w ≠ [] ∧ w.length < 2 ^ 63
  both : chunkedSet r.calls = true → lengthSet r.calls = none
  length : chunkedSet r.calls = false → r.data.length = (lengthSet r.calls).getD 0

theorem chunkedEncoding_sendHeaders (r : Response) (traversal : HeaderMap → List (Bytes × Bytes)) :
    (r.output traversal).sendHeaders.2.chunkedEncoding = chunkedSet r.calls := by
  rw [OutputCall.chunkedEncoding_sendHeaders rfl, chunkedSet, ← Header.find_store]
  rfl

end Response

/-- The calls make this response of a new output. A chunked response is ended by the server alone. -/
structure Response.MadeBy (r : Response) (calls : List OutputCall)
    (traversal : HeaderMap → List (Bytes × Bytes)) : Prop where
  opened : opened { traversal := traversal } calls = r.output traversal
  writes : OutputCall.writes calls = r.writes
  once : HeaderCall.chunkedSet r.calls = true → .finish ∉ calls

theorem Response.MadeBy.texts_eq {r : Response} {calls : List OutputCall}
    {traversal : HeaderMap → List (Bytes × Bytes)} (h : r.MadeBy calls traversal)
    (hproper : Proper calls) :
    texts { traversal := traversal } (calls ++ [.finish]) = r.text traversal := by
  rw [texts_concat hproper _ rfl rfl, h.opened, h.writes, Response.text]
  congr 2
  by_cases hchunked : HeaderCall.chunkedSet r.calls = true
  · rw [(ends_eq_zero_iff calls).mpr (h.once hchunked)]
    exact List.append_nil _
  · have hend : (r.output traversal).sendHeaders.2.endText = [] := by
      rw [HttpOutput.endText, r.chunkedEncoding_sendHeaders, if_neg hchunked]
    rw [hend, List.flatten_eq_nil_iff]
    exact fun bs hbs => List.eq_of_mem_replicate hbs

namespace HttpServer

/-- What serves the message makes this response. -/
structure Replies (server : HttpServer E) (m : Message) (r : Response) : Prop where
  framed : r.Framed
  serves : ∃ p, server.Serves m p ∧ r.MadeBy (said p (server.script m.body.left)) server.traversal

theorem Replies.reply_eq {server : HttpServer E} {m : Message} {r : Response}
    (h : server.Replies m r) : server.reply m = r.text server.traversal := by
  obtain ⟨p, hserves, hmade⟩ := h.serves
  rw [HttpServer.reply_eq hserves.program, hmade.texts_eq hserves.proper]

end HttpServer

end CppEvent
