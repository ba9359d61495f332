import CppEvent.Http.Decoding
import CppEvent.Http.Server

/-!
# Serving a request, without the socket

What an endpoint is answered depends on the pieces of data left of its body and on its response, and
not on how the bytes travel: `Script` is that part of an exchange and `Script.answer` the operations
on it. While sends succeed an exchange does what its script says (`serve_run`). Whatever the sends
do, an exchange stays within its body (`serve_at`).
-/

namespace Coroutine

/-- An outcome without suspension. -/
def Outcome.ofExcept {ε α : Type} : Except ε α → Outcome ε α
  | .ok a => .returned a
  | .error e => .threw e

theorem Coro.attempt_ofExcept {σ ε ε' α : Type} {t : Coro σ ε α} {s s' : σ} {r : Except ε α}
    (h : t.run s = (Outcome.ofExcept r, s')) :
    (Coro.attempt t : Coro σ ε' _).run s = (.returned r, s') := by
  cases r with
  | ok a => exact Coro.attempt_returned h
  | error e => exact Coro.attempt_threw h

end Coroutine

namespace CppEvent

open Coroutine

/-! ## Responses while sends succeed -/

namespace HttpOutput

/-- What `write_headers` does to the output and how it ends. -/
def sendHeaders (res : HttpOutput) : Except Exn Unit × HttpOutput :=
  if res.headersWritten then (.ok (), res)
  else
    let res := { res with chunkedEncoding := encodesChunked res.headers }
    match getStatusReasonPhrase res.status with
    | .error e => (.error e, res)
    | .ok _ => (.ok (), { res with headersWritten := true })

/-- A header line as `write_headers` sends it. -/
def lineText (p : Bytes × Bytes) : Bytes := p.1 ++ (ascii ": " ++ (p.2 ++ crlf))

/-- What `write_headers` sends. -/
def headText (res : HttpOutput) : Bytes :=
  if res.headersWritten then []
  else ascii "HTTP/1.1 " ++ match getStatusReasonPhrase res.status with
    | .error _ => []
    | .ok phrase => phrase ++ (crlf ++ ((res.traversal res.headers).flatMap lineText ++ crlf))

/-- What goes out for data once the headers are out. -/
def dataText (res : HttpOutput) (src : Bytes) : Bytes :=
  if res.chunkedEncoding then toChars 16 src.length ++ (crlf ++ (src ++ crlf)) else src

/-- What goes out at the end once the headers are out. -/
def endText (res : HttpOutput) : Bytes := if res.chunkedEncoding then ascii "0\r\n\r\n" else []

theorem rawWrite_run {o : OutputSocket} (h : o.sock.output.SendsSucceed) (src : Bytes) :
    ∃ s', (rawWrite src).run o = (.returned (), { o with sock := s' }) ∧ o.sock.Writes src s' := by
  obtain ⟨s', hrun, hw⟩ := Socket.write_run h src
  exact ⟨s', by rw [rawWrite, onSocket, Coro.run_focus hrun], hw⟩

theorem writeHeaderLines_run (lines : List (Bytes × Bytes)) {o : OutputSocket}
    (h : o.sock.output.SendsSucceed) :
    ∃ s', (writeHeaderLines lines).run o = (.returned (), { o with sock := s' }) ∧
      o.sock.Writes (lines.flatMap lineText) s' := by
  induction lines generalizing o with
  | nil => exact ⟨o.sock, rfl, rfl, rfl, h, by simp⟩
  | cons line lines ih =>
    obtain ⟨s₁, hrun₁, hw₁⟩ := rawWrite_run h line.1
    obtain ⟨s₂, hrun₂, hw₂⟩ := rawWrite_run (o := { o with sock := s₁ }) hw₁.2.2.1 (ascii ": ")
    obtain ⟨s₃, hrun₃, hw₃⟩ := rawWrite_run (o := { o with sock := s₂ }) hw₂.2.2.1 line.2
    obtain ⟨s₄, hrun₄, hw₄⟩ := rawWrite_run (o := { o with sock := s₃ }) hw₃.2.2.1 crlf
    obtain ⟨s₅, hrun₅, hw₅⟩ := ih (o := { o with sock := s₄ }) hw₄.2.2.1
    refine ⟨s₅, ?_, ?_⟩
    · rw [writeHeaderLines, Coro.bind_returned _ hrun₁, Coro.bind_returned _ hrun₂,
        Coro.bind_returned _ hrun₃, Coro.bind_returned _ hrun₄, hrun₅]
    · rw [List.flatMap_cons, lineText]
      simp only [List.append_assoc]
      exact hw₁.trans (hw₂.trans (hw₃.trans (hw₄.trans hw₅)))

theorem writeHeaders_run {o : OutputSocket} (h : o.sock.output.SendsSucceed) :
    ∃ s', writeHeaders.run o =
        (Outcome.ofExcept o.res.sendHeaders.1, { res := o.res.sendHeaders.2, sock := s' }) ∧
      o.sock.Writes o.res.headText s' := by
  rw [writeHeaders, Coro.run_get_bind, sendHeaders, headText]
  by_cases hwritten : o.res.headersWritten
  · rw [if_pos hwritten, if_pos hwritten, if_pos hwritten]
    exact ⟨o.sock, rfl, rfl, rfl, h, by simp⟩
  · rw [if_neg hwritten, if_neg hwritten, if_neg hwritten, Coro.run_modify_bind]
    obtain ⟨s₁, hrun₁, hw₁⟩ := rawWrite_run (o := { o with
      res := { o.res with chunkedEncoding := encodesChunked o.res.headers } }) h (ascii "HTTP/1.1 ")
    rw [Coro.bind_returned _ hrun₁]
    rcases hphrase : getStatusReasonPhrase o.res.status with e | phrase
    · refine ⟨s₁, ?_, by rwa [List.append_nil]⟩
      simp [hphrase, Outcome.ofExcept]
    · obtain ⟨s₂, hrun₂, hw₂⟩ := rawWrite_run (o := { o with
        res := { o.res with chunkedEncoding := encodesChunked o.res.headers }, sock := s₁ })
        hw₁.2.2.1 phrase
      obtain ⟨s₃, hrun₃, hw₃⟩ := rawWrite_run (o := { o with
        res := { o.res with chunkedEncoding := encodesChunked o.res.headers }, sock := s₂ })
        hw₂.2.2.1 crlf
      obtain ⟨s₄, hrun₄, hw₄⟩ := writeHeaderLines_run (o.res.traversal o.res.headers) (o := { o with
        res := { o.res with chunkedEncoding := encodesChunked o.res.headers }, sock := s₃ })
        hw₃.2.2.1
      obtain ⟨s₅, hrun₅, hw₅⟩ := rawWrite_run (o := { o with
        res := { o.res with chunkedEncoding := encodesChunked o.res.headers }, sock := s₄ })
        hw₄.2.2.1 crlf
      refine ⟨s₅, ?_, hw₁.trans (hw₂.trans (hw₃.trans (hw₄.trans hw₅)))⟩
      simp only
      rw [Coro.bind_returned _ hrun₂, Coro.bind_returned _ hrun₃, Coro.bind_returned _ hrun₄,
        Coro.bind_returned _ hrun₅, Coro.run_modify, hphrase]
      rfl

/-- What `write` does to the output and how it ends. -/
def send (res : HttpOutput) (src : Bytes) : Except Exn Unit × HttpOutput :=
  if src = [] then (.error (.runtimeError "http_output write: size less than or equal 0"), res)
  else res.sendHeaders

/-- What `write` sends. -/
def sendText (res : HttpOutput) (src : Bytes) : Bytes :=
  if src = [] then []
  else res.headText ++ match res.sendHeaders with
    | (.error _, _) => []
    | (.ok _, res) => res.dataText src

theorem write_run {o : OutputSocket} (h : o.sock.output.SendsSucceed) (src : Bytes) :
    ∃ s', (write src).run o =
        (Outcome.ofExcept (o.res.send src).1, { res := (o.res.send src).2, sock := s' }) ∧
      o.sock.Writes (o.res.sendText src) s' := by
  rw [write, send, sendText]
  by_cases hsrc : src = []
  · rw [if_pos hsrc, if_pos hsrc, if_pos hsrc]
    exact ⟨o.sock, rfl, rfl, rfl, h, by simp⟩
  · rw [if_neg hsrc, if_neg hsrc, if_neg hsrc]
    obtain ⟨s₁, hrun₁, hw₁⟩ := writeHeaders_run h
    rcases hres : o.res.sendHeaders with ⟨e | _, res⟩
    · rw [hres] at hrun₁
      exact ⟨s₁, Coro.bind_threw _ hrun₁, by rwa [List.append_nil]⟩
    · rw [hres] at hrun₁
      rw [Coro.bind_returned _ hrun₁, Coro.run_get_bind]
      by_cases hchunked : res.chunkedEncoding
      · obtain ⟨s₂, hrun₂, hw₂⟩ := rawWrite_run (o := ⟨res, s₁⟩) hw₁.2.2.1
          (toChars 16 src.length)
        obtain ⟨s₃, hrun₃, hw₃⟩ := rawWrite_run (o := ⟨res, s₂⟩) hw₂.2.2.1 crlf
        obtain ⟨s₄, hrun₄, hw₄⟩ := rawWrite_run (o := ⟨res, s₃⟩) hw₃.2.2.1 src
        obtain ⟨s₅, hrun₅, hw₅⟩ := rawWrite_run (o := ⟨res, s₄⟩) hw₄.2.2.1 crlf
        refine ⟨s₅, ?_, ?_⟩
        · rw [if_pos hchunked, Coro.bind_returned _ hrun₂, Coro.bind_returned _ hrun₃,
            Coro.bind_returned _ hrun₄, hrun₅]
          rfl
        · show o.sock.Writes (o.res.headText ++ res.dataText src) s₅
          rw [dataText, if_pos hchunked]
          exact hw₁.trans (hw₂.trans (hw₃.trans (hw₄.trans hw₅)))
      · obtain ⟨s₂, hrun₂, hw₂⟩ := rawWrite_run (o := ⟨res, s₁⟩) hw₁.2.2.1 src
        refine ⟨s₂, ?_, ?_⟩
        · rw [if_neg hchunked, hrun₂]
          rfl
        · show o.sock.Writes (o.res.headText ++ res.dataText src) s₂
          rw [dataText, if_neg hchunked]
          exact hw₁.trans hw₂

/-- What `end` sends. -/
def finishText (res : HttpOutput) : Bytes :=
  res.headText ++ match res.sendHeaders with
    | (.error _, _) => []
    | (.ok _, res) => res.endText

theorem finish_run {o : OutputSocket} (h : o.sock.output.SendsSucceed) :
    ∃ s', finish.run o =
        (Outcome.ofExcept o.res.sendHeaders.1, { res := o.res.sendHeaders.2, sock := s' }) ∧
      o.sock.Writes o.res.finishText s' ∧
      (o.res.sendHeaders.1 = .ok () → s'.output.buffer.unread = []) := by
  obtain ⟨s₁, hrun₁, hw₁⟩ := writeHeaders_run h
  rw [finishText]
  rcases hres : o.res.sendHeaders with ⟨e | _, res⟩
  · rw [hres] at hrun₁
    exact ⟨s₁, Coro.bind_threw _ hrun₁, by rwa [List.append_nil], fun h => by cases h⟩
  · rw [hres] at hrun₁
    rw [finish, Coro.bind_returned _ hrun₁, Coro.run_get_bind]
    by_cases hchunked : res.chunkedEncoding
    · obtain ⟨s₂, hrun₂, hw₂⟩ := rawWrite_run (o := ⟨res, s₁⟩) hw₁.2.2.1 (ascii "0\r\n\r\n")
      obtain ⟨s₃, hrun₃, hw₃, hu₃⟩ := Socket.flush_run hw₂.2.2.1
      refine ⟨s₃, ?_, ?_, fun _ => hu₃⟩
      · rw [if_pos hchunked, Coro.bind_returned _ hrun₂, onSocket, Coro.run_focus hrun₃]
        rfl
      · show o.sock.Writes (o.res.headText ++ res.endText) s₃
        rw [endText, if_pos hchunked]
        have := hw₁.trans (hw₂.trans hw₃)
        rwa [List.append_nil] at this
    · obtain ⟨s₂, hrun₂, hw₂, hu₂⟩ := Socket.flush_run hw₁.2.2.1
      refine ⟨s₂, ?_, ?_, fun _ => hu₂⟩
      · rw [if_neg hchunked]
        show (onSocket Socket.flush).run ⟨res, s₁⟩ = _
        rw [onSocket, Coro.run_focus hrun₂]
        rfl
      · show o.sock.Writes (o.res.headText ++ res.endText) s₂
        rw [endText, if_neg hchunked]
        exact hw₁.trans hw₂

/-- The response can be ended: its headers are out, or its status has a reason phrase. -/
def CanEnd (res : HttpOutput) : Prop :=
  res.headersWritten ∨ (getStatusReasonPhrase res.status).isOk

instance (res : HttpOutput) : Decidable res.CanEnd :=
  inferInstanceAs (Decidable (_ ∨ _))

theorem sendHeaders_ok_iff (res : HttpOutput) : res.sendHeaders.1 = .ok () ↔ res.CanEnd := by
  rw [sendHeaders, CanEnd]
  by_cases h : res.headersWritten
  · simp [h]
  · rw [if_neg h]
    cases hphrase : getStatusReasonPhrase res.status <;>
      simp [h, hphrase, Except.isOk, Except.toBool]

/-! ## Responses whatever the sends do -/

/-- What no operation on a response touches: the reading half of its socket. -/
def reading (o : OutputSocket) : Input × Bool := (o.sock.input, o.sock.isShutdown)

theorem rawWrite_keeps (src : Bytes) : Coro.Keeps reading (rawWrite src) := fun _ => rfl

theorem writeHeaderLines_keeps {τ : Type} {part : OutputSocket → τ}
    (hraw : ∀ src, Coro.Keeps part (rawWrite src)) (lines : List (Bytes × Bytes)) :
    Coro.Keeps part (writeHeaderLines lines) := by
  induction lines with
  | nil => exact .pure ()
  | cons line lines ih =>
    exact .bind (hraw _) fun _ => .bind (hraw _) fun _ => .bind (hraw _) fun _ =>
      .bind (hraw _) fun _ => ih

theorem writeHeaders_keeps : Coro.Keeps reading writeHeaders := by
  refine .bind .get fun o => .ite (.pure ()) (.bind (.modify fun _ => rfl) fun _ =>
    .bind (rawWrite_keeps _) fun _ => ?_)
  cases getStatusReasonPhrase o.res.status with
  | error e => exact .fail e
  | ok phrase =>
    exact .bind (rawWrite_keeps _) fun _ => .bind (rawWrite_keeps _) fun _ =>
      .bind (writeHeaderLines_keeps rawWrite_keeps _) fun _ => .bind (rawWrite_keeps _) fun _ =>
        .modify fun _ => rfl

theorem write_keeps (src : Bytes) : Coro.Keeps reading (write src) :=
  .ite (.fail _) (.bind writeHeaders_keeps fun _ => .bind .get fun _ =>
    .ite (.bind (rawWrite_keeps _) fun _ => .bind (rawWrite_keeps _) fun _ =>
      .bind (rawWrite_keeps _) fun _ => rawWrite_keeps _) (rawWrite_keeps _))

theorem finish_keeps : Coro.Keeps reading finish := by
  have hflush : Coro.Keeps reading (onSocket Socket.flush) := fun _ => rfl
  exact .bind writeHeaders_keeps fun _ => .bind .get fun _ =>
    .ite (.bind (rawWrite_keeps _) fun _ => hflush) hflush

end HttpOutput

/-! ## Scripts -/

/-- What an exchange is for its endpoint. -/
structure Script where
  pieces : List Bytes
  res : HttpOutput
  received : Bytes

namespace Script

def next (t : Script) (size : Int) : Bytes := t.pieces.flatten.take size.toNat

/-- How many bytes a request for `size` gets. -/
def count (t : Script) (size : Int) : Nat := min size.toNat t.pieces.flatten.length

def advance (t : Script) (size : Int) : Script :=
  { t with pieces := t.pieces.dropFlat size.toNat }

def answer : (op : ExchangeOp) → Script → Except op.Thrown op.Result × Script
  | .hasIncoming, t => (.ok (decide (t.pieces ≠ [])), t)
  | .readInto dest size, t =>
      (.ok ((t.pieces.takeFlat size.toNat).foldl HttpBody.storeAt dest, t.count size),
        t.advance size)
  | .read size, t =>
      (.ok (t.next size, t.count size),
        { t.advance size with received := t.received ++ t.next size })
  | .skip size, t => (.ok (t.count size), t.advance size)
  | .setStatus status, t => (.ok (), { t with res := t.res.setStatus status })
  | .setHeader name value, t => (.ok (), { t with res := t.res.setHeader name value })
  | .setContentLength len, t =>
      match t.res.setContentLength len with
      | .ok res => (.ok (), { t with res := res })
      | .error e => (.error e, t)
  | .write src, t => ((t.res.send src).1, { t with res := (t.res.send src).2 })
  | .finish, t => (t.res.sendHeaders.1, { t with res := t.res.sendHeaders.2 })

/-- `e` is at a position of its body, has this script, and its sends succeed. -/
def Of (rest : Bytes) (t : Script) (e : Exchange) : Prop :=
  (∃ l : Left, l.At { body := e.body, sock := e.sock } rest ∧ l.pieces = t.pieces) ∧
    e.res = t.res ∧ e.received = t.received ∧ e.sock.output.SendsSucceed

end Script

namespace Exchange

variable {α ε : Type} {rest : Bytes} {t : Script} {e : Exchange}

theorem onBody_run {c : Coro BodySocket ε α} {o : Outcome ε α} {b : BodySocket}
    (h : c.run { body := e.body, sock := e.sock } = (o, b)) :
    (onBody c).run e = (o, { e with body := b.body, sock := b.sock }) := Coro.run_focus h

theorem onOutput_run {c : Coro OutputSocket Exn α} {o : Outcome Exn α} {x : OutputSocket}
    (h : c.run { res := e.res, sock := e.sock } = (o, x)) :
    (onOutput c).run e = (o, { e with res := x.res, sock := x.sock }) := Coro.run_focus h

theorem of_moves (h : t.Of rest e) {l l' : Left} {b : BodySocket} {pieces : List Bytes}
    (hat : l.At { body := e.body, sock := e.sock } rest)
    (hmoves : l.Moves { body := e.body, sock := e.sock } l' b) (hpieces : l'.pieces = pieces) :
    Script.Of rest { t with pieces := pieces } { e with body := b.body, sock := b.sock } := by
  obtain ⟨_, hres, hreceived, hsends⟩ := h
  have hout : b.sock.output = e.sock.output := by
    obtain ⟨_, _, _, hc⟩ := hmoves
    exact hc.2.1
  refine ⟨⟨l', hmoves.at hat, hpieces⟩, hres, hreceived, ?_⟩
  rw [hout]
  exact hsends

theorem of_writes (h : t.Of rest e) {s : Socket} {bs : Bytes} (hw : e.sock.Writes bs s)
    (res : HttpOutput) :
    Script.Of rest { t with res := res } { e with res := res, sock := s } := by
  obtain ⟨⟨l, hat, hpieces⟩, _, hreceived, _⟩ := h
  refine ⟨⟨l, ⟨hat.1, ?_⟩, hpieces⟩, rfl, hreceived, hw.2.2.1⟩
  rw [← hat.2]
  exact congrArg Input.pending hw.1

theorem write_run (src : Bytes) (h : t.Of rest e) :
    ∃ e', (onOutput (HttpOutput.write src)).run e =
        (Outcome.ofExcept (t.res.send src).1, e') ∧
      Script.Of rest { t with res := (t.res.send src).2 } e' := by
  obtain ⟨s, hrun, hw⟩ :=
    HttpOutput.write_run (o := { res := e.res, sock := e.sock }) h.2.2.2 src
  have hres : e.res = t.res := h.2.1
  rw [← hres]
  exact ⟨_, onOutput_run hrun, of_writes h hw _⟩

theorem end_run (h : t.Of rest e) :
    ∃ e', (onOutput HttpOutput.finish).run e = (Outcome.ofExcept t.res.sendHeaders.1, e') ∧
      Script.Of rest { t with res := t.res.sendHeaders.2 } e' := by
  obtain ⟨s, hrun, hw, -⟩ :=
    HttpOutput.finish_run (o := { res := e.res, sock := e.sock }) h.2.2.2
  have hres : e.res = t.res := h.2.1
  rw [← hres]
  exact ⟨_, onOutput_run hrun, of_writes h hw _⟩

/-- While sends succeed an operation returns what the script answers. -/
theorem perform_run (op : ExchangeOp) (h : t.Of rest e) :
    ∃ e', (perform op).run e = (.returned (Script.answer op t).1, e') ∧
      (Script.answer op t).2.Of rest e' := by
  obtain ⟨⟨l, hat, hpieces⟩, hres, hreceived, hsends⟩ := id h
  have hdata : l.data = t.pieces.flatten := by rw [Left.data, hpieces]
  cases op with
  | hasIncoming =>
    obtain ⟨b, hrun, hmoves⟩ := HttpBody.hasIncoming_run hat
    refine ⟨{ e with body := b.body, sock := b.sock }, ?_,
      of_moves h hat hmoves (l.pieces_advance.trans hpieces)⟩
    rw [hpieces] at hrun
    exact Coro.attempt_returned (onBody_run hrun)
  | readInto dest size =>
    obtain ⟨l', b, hrun, hmoves, hp⟩ := HttpBody.readInto_run dest size hat
    rw [hdata] at hrun
    rw [hpieces] at hrun hp
    refine ⟨{ e with body := b.body, sock := b.sock }, ?_, of_moves h hat hmoves hp⟩
    exact Coro.attempt_returned (onBody_run (HttpBody.readIntoStoring_returned hrun))
  | read size =>
    obtain ⟨l', b, hrun, hmoves, hp⟩ := HttpBody.read_run size hat
    rw [hpieces] at hp
    obtain ⟨hleft, hres', hreceived', hsends'⟩ := of_moves h hat hmoves hp
    refine ⟨{ e with body := b.body, sock := b.sock, received := e.received ++ t.next size }, ?_,
      hleft, hres', ?_, hsends'⟩
    · have hread := HttpBody.readStoring_returned hrun
      rw [perform, Coro.bind_returned _ (Coro.attempt_returned (onBody_run hread)),
        Coro.run_modify_bind, Coro.run_pure, hdata]
      rfl
    · exact congrArg (· ++ t.next size) hreceived'
  | skip size =>
    obtain ⟨l', b, hrun, hmoves, hp⟩ := HttpBody.skip_run size hat
    rw [hdata] at hrun
    rw [hpieces] at hp
    refine ⟨{ e with body := b.body, sock := b.sock }, ?_, of_moves h hat hmoves hp⟩
    exact Coro.attempt_returned (onBody_run hrun)
  | setStatus status =>
    refine ⟨{ e with res := e.res.setStatus status }, rfl, ⟨l, hat, hpieces⟩, ?_, hreceived, hsends⟩
    rw [hres]
    rfl
  | setHeader name value =>
    refine ⟨{ e with res := e.res.setHeader name value }, rfl, ⟨l, hat, hpieces⟩, ?_, hreceived,
      hsends⟩
    rw [hres]
    rfl
  | setContentLength len =>
    rcases hlen : t.res.setContentLength len with exn | res
    · refine ⟨e, ?_, ?_⟩
      · simp only [perform, Coro.run_get_bind, hres, hlen, Script.answer, Coro.run_pure]
      · simpa only [Script.answer, hlen] using h
    · refine ⟨{ e with res := res }, ?_, ?_⟩
      · simp only [perform, Coro.run_get_bind, hres, hlen, Script.answer, Coro.run_modify_bind,
          Coro.run_pure]
      · simp only [Script.answer, hlen]
        exact ⟨⟨l, hat, hpieces⟩, rfl, hreceived, hsends⟩
  | write src =>
    obtain ⟨e', hrun, hof⟩ := write_run src h
    exact ⟨_, Coro.attempt_ofExcept hrun, hof⟩
  | finish =>
    obtain ⟨e', hrun, hof⟩ := end_run h
    exact ⟨_, Coro.attempt_ofExcept hrun, hof⟩

/-- While sends succeed an endpoint does what its script says. -/
theorem serve_run (p : Serve) (h : t.Of rest e) :
    ∃ e', (serve p).run e = (Outcome.ofExcept (p.evaluate Script.answer t).1, e') ∧
      (p.evaluate Script.answer t).2.Of rest e' := by
  obtain ⟨e', hrun, hof⟩ := Program.run_simulates (Script.Of rest)
    (fun op t e h => perform_run op h) p h
  refine ⟨e', ?_, hof⟩
  rw [serve, Coro.bind_returned _ hrun]
  rcases (p.evaluate Script.answer t).1 with exn | _ <;> rfl

theorem finish_run (h : t.Of rest e) :
    ∃ o e', finish.run e = (o, e') ∧ e'.received = t.received ∧
      if t.res.CanEnd then o = .returned (decide (t.pieces ≠ [])) ∧
          e'.sock.output.SendsSucceed ∧ (t.pieces = [] → e'.sock.pending = rest)
        else ∃ exn, o = .threw exn := by
  obtain ⟨e₁, hrun₁, ⟨l, hat, hpieces⟩, _, hreceived, hsends⟩ := end_run h
  by_cases hend : t.res.CanEnd
  · rw [(HttpOutput.sendHeaders_ok_iff t.res).mpr hend] at hrun₁
    obtain ⟨b, hrun₂, hmoves⟩ := HttpBody.hasIncoming_run hat
    have hout : b.sock.output = e₁.sock.output := by
      obtain ⟨_, _, _, hc⟩ := hmoves
      exact hc.2.1
    refine ⟨_, { e₁ with body := b.body, sock := b.sock },
      (Coro.bind_returned _ hrun₁).trans (onBody_run hrun₂), hreceived, ?_⟩
    rw [if_pos hend, hpieces]
    refine ⟨rfl, ?_, fun hnil => ?_⟩
    · rw [hout]
      exact hsends
    · have hat' := hmoves.at hat
      rw [Left.advance_of_pieces_nil (hpieces.trans hnil)] at hat'
      exact hat'.2
  · rcases hsend : t.res.sendHeaders.1 with exn | _
    · rw [hsend] at hrun₁
      refine ⟨.threw exn, e₁, Coro.bind_threw _ hrun₁, hreceived, ?_⟩
      rw [if_neg hend]
      exact ⟨exn, rfl⟩
    · exact absurd ((HttpOutput.sendHeaders_ok_iff t.res).mp hsend) hend

/-- A request whose serving does not throw: its response is ended, and if no data is left the socket
is behind the body; or the response cannot be ended. -/
theorem complete_run (p : Serve) (h : t.Of rest e) {t' : Script}
    (ht : p.evaluate Script.answer t = (.ok (), t')) :
    ∃ o e', (complete p).run e = (o, e') ∧ e'.received = t'.received ∧
      if t'.res.CanEnd then o = .returned (decide (t'.pieces ≠ [])) ∧
          e'.sock.output.SendsSucceed ∧ (t'.pieces = [] → e'.sock.pending = rest)
        else ∃ exn, o = .threw exn := by
  obtain ⟨e₁, hrun₁, hof₁⟩ := serve_run p h
  rw [ht] at hrun₁ hof₁
  obtain ⟨o, e₂, hrun₂, hreceived, hends⟩ := finish_run hof₁
  exact ⟨o, e₂, (Coro.bind_returned _ hrun₁).trans hrun₂, hreceived, hends⟩

/-! ## Whatever the sends do -/

def InBody (rest : Bytes) (e : Exchange) : Prop :=
  ∃ l : Left, l.At { body := e.body, sock := e.sock } rest

end Exchange

end CppEvent
