import CppEvent.Http.Response
import CppEvent.Net.Writing

/-!
# One response for a request

Any calls of `http_output`, whatever the sends make of the bytes: what the calls that return have sent is
one head and the data, and the last chunk once for every `end` (`serveAll_returned`). So the response is
the one that the calls describe unless it is chunked and the endpoint has ended it itself
(`one_response_iff`). A head that cannot go out has begun to before that is noticed
(`fails_cleanly_iff`).
-/

namespace CppEvent

open Coroutine

namespace HttpOutput

variable {α β : Type}

/-! ## What a call that returns has sent -/

/-- All that the coroutine does if it returns is to send the text. -/
def Emits (t : Coro OutputSocket Exn α) (text : Bytes) : Prop :=
  ∀ o a o', t.run o = (.returned a, o') →
    o'.res = o.res ∧ o'.sock.output.written = o.sock.output.written ++ text

theorem Emits.pure (a : α) : Emits (pure a) [] := by
  intro o a' o' h
  obtain ⟨-, rfl⟩ := Prod.mk.inj h
  exact ⟨rfl, (List.append_nil _).symm⟩

theorem Emits.bind {t : Coro OutputSocket Exn α} {f : α → Coro OutputSocket Exn β}
    {text text' : Bytes} (ht : Emits t text) (hf : ∀ a, Emits (f a) text') :
    Emits (t >>= f) (text ++ text') := by
  intro o b o'' h
  obtain ⟨a, o', h₁, h₂⟩ := Coro.returned_of_bind h
  obtain ⟨hres, hw⟩ := ht o a o' h₁
  obtain ⟨hres', hw'⟩ := hf a o' b o'' h₂
  exact ⟨hres'.trans hres, by rw [hw', hw, List.append_assoc]⟩

theorem emits_rawWrite (src : Bytes) : Emits (rawWrite src) src := by
  intro o a o' h
  obtain ⟨outcome, s', hrun, -, taken, -, hw, hall⟩ := Output.write_leaves src o.sock.output
  rw [rawWrite, onSocket, Socket.write, Socket.onOutput, Coro.run_focus (Coro.run_focus hrun)] at h
  obtain ⟨rfl, rfl⟩ := Prod.mk.inj h
  exact ⟨rfl, by rw [← hall rfl]; exact hw⟩

theorem emits_writeHeaderLines (lines : List (Bytes × Bytes)) :
    Emits (writeHeaderLines lines) (lines.flatMap lineText) := by
  induction lines with
  | nil => exact .pure ()
  | cons line lines ih =>
    have h := (emits_rawWrite line.1).bind fun _ => (emits_rawWrite (ascii ": ")).bind fun _ =>
      (emits_rawWrite line.2).bind fun _ => (emits_rawWrite crlf).bind fun _ => ih
    rw [List.flatMap_cons, lineText]
    simp only [List.append_assoc]
    exact h

theorem writeHeaders_returned {o o' : OutputSocket} {u : Unit}
    (h : writeHeaders.run o = (.returned u, o')) :
    o'.res = o.res.sendHeaders.2 ∧
      o'.sock.output.written = o.sock.output.written ++ o.res.headText := by
  rw [writeHeaders, Coro.run_get_bind] at h
  rw [sendHeaders, headText]
  by_cases hwritten : o.res.headersWritten
  · rw [if_pos hwritten] at h ⊢
    rw [if_pos hwritten]
    exact Emits.pure () o u o' h
  · rw [if_neg hwritten, Coro.run_modify_bind] at h
    rw [if_neg hwritten, if_neg hwritten]
    obtain ⟨_, o₁, h₁, h⟩ := Coro.returned_of_bind h
    obtain ⟨hres₁, hw₁⟩ := emits_rawWrite _ _ _ _ h₁
    cases hphrase : getStatusReasonPhrase o.res.status with
    | error e =>
      simp only [hphrase] at h
      cases (Prod.mk.inj h).1
    | ok phrase =>
      simp only [hphrase] at h
      obtain ⟨_, o₂, h₂, h⟩ := Coro.returned_of_bind h
      obtain ⟨_, o₃, h₃, h⟩ := Coro.returned_of_bind h
      obtain ⟨_, o₄, h₄, h⟩ := Coro.returned_of_bind h
      obtain ⟨_, o₅, h₅, h⟩ := Coro.returned_of_bind h
      obtain ⟨hres₂, hw₂⟩ := emits_rawWrite _ _ _ _ h₂
      obtain ⟨hres₃, hw₃⟩ := emits_rawWrite _ _ _ _ h₃
      obtain ⟨hres₄, hw₄⟩ := emits_writeHeaderLines _ _ _ _ h₄
      obtain ⟨hres₅, hw₅⟩ := emits_rawWrite _ _ _ _ h₅
      obtain ⟨-, rfl⟩ := Prod.mk.inj h
      have hres := hres₅.trans (hres₄.trans (hres₃.trans (hres₂.trans hres₁)))
      simp only [hphrase]
      constructor
      · show { o₅.res with headersWritten := true } = _
        rw [hres]
      · show o₅.sock.output.written = _
        rw [hw₅, hw₄, hw₃, hw₂, hw₁]
        simp only [List.append_assoc]

theorem write_returned {src : Bytes} {o o' : OutputSocket} {u : Unit}
    (h : (write src).run o = (.returned u, o')) :
    o'.res = o.res.sendHeaders.2 ∧ o'.sock.output.written =
      o.sock.output.written ++ (o.res.headText ++ o.res.sendHeaders.2.dataText src) := by
  rw [write, Coro.run_ite] at h
  split at h
  · cases (Prod.mk.inj h).1
  · obtain ⟨_, o₁, h₁, h⟩ := Coro.returned_of_bind h
    obtain ⟨hres₁, hw₁⟩ := writeHeaders_returned h₁
    rw [Coro.run_get_bind, hres₁] at h
    have hdata : Emits (if o.res.sendHeaders.2.chunkedEncoding then do
        rawWrite (toChars 16 src.length)
        rawWrite crlf
        rawWrite src
        rawWrite crlf
      else rawWrite src) (o.res.sendHeaders.2.dataText src) := by
      rw [dataText]
      split
      · exact (emits_rawWrite _).bind fun _ => (emits_rawWrite _).bind fun _ =>
          (emits_rawWrite _).bind fun _ => emits_rawWrite _
      · exact emits_rawWrite src
    obtain ⟨hres, hw⟩ := hdata _ _ _ h
    exact ⟨hres.trans hres₁, by rw [hw, hw₁, List.append_assoc]⟩

theorem finish_returned {o o' : OutputSocket} {u : Unit} (h : finish.run o = (.returned u, o')) :
    o'.res = o.res.sendHeaders.2 ∧ o'.sock.output.written =
        o.sock.output.written ++ (o.res.headText ++ o.res.sendHeaders.2.endText) ∧
      o'.sock.output.sent = o'.sock.output.written := by
  obtain ⟨_, o₁, h₁, h⟩ := Coro.returned_of_bind h
  obtain ⟨hres₁, hw₁⟩ := writeHeaders_returned h₁
  rw [Coro.run_get_bind, hres₁] at h
  obtain ⟨o₂, hres₂, hw₂, hflush⟩ : ∃ o₂, o₂.res = o₁.res ∧ o₂.sock.output.written =
      o₁.sock.output.written ++ o.res.sendHeaders.2.endText ∧
      (onSocket Socket.flush).run o₂ = (.returned u, o') := by
    rw [endText]
    by_cases hchunked : o.res.sendHeaders.2.chunkedEncoding
    · rw [if_pos hchunked] at h ⊢
      obtain ⟨_, o₂, h₂, hflush⟩ := Coro.returned_of_bind h
      obtain ⟨hres₂, hw₂⟩ := emits_rawWrite _ _ _ _ h₂
      exact ⟨o₂, hres₂, hw₂, hflush⟩
    · rw [if_neg hchunked] at h ⊢
      exact ⟨o₁, rfl, (List.append_nil _).symm, h⟩
  obtain ⟨outcome, s', hrun, hflushed, -, hunread⟩ := Output.flush_leaves o₂.sock.output
  rw [onSocket, Socket.flush, Socket.onOutput, Coro.run_focus (Coro.run_focus hrun)] at hflush
  obtain ⟨rfl, rfl⟩ := Prod.mk.inj hflush
  refine ⟨hres₂.trans hres₁, ?_, ?_⟩
  · rw [← List.append_assoc, ← hw₁, ← hw₂]
    exact hflushed
  · show s'.sent = s'.written
    rw [Output.written, hunread rfl, List.append_nil]

end HttpOutput

/-! ## Any calls -/

/-- The calls that an endpoint makes on a response. -/
inductive OutputCall where
  | setStatus (status : HttpStatus)
  | setHeader (name value : Bytes)
  | write (src : Bytes)
  | finish

namespace OutputCall

def perform : OutputCall → Coro OutputSocket Exn Unit
  | setStatus status => Coro.modify fun o => { o with res := o.res.setStatus status }
  | setHeader name value => Coro.modify fun o => { o with res := o.res.setHeader name value }
  | write src => HttpOutput.write src
  | finish => HttpOutput.finish

def performAll : List OutputCall → Coro OutputSocket Exn Unit
  | [] => pure ()
  | call :: calls => do
      perform call
      performAll calls

def after (res : HttpOutput) : OutputCall → HttpOutput
  | setStatus status => res.setStatus status
  | setHeader name value => res.setHeader name value
  | write _ | finish => res.sendHeaders.2

def text (res : HttpOutput) : OutputCall → Bytes
  | setStatus _ | setHeader _ _ => []
  | write src => res.headText ++ res.sendHeaders.2.dataText src
  | finish => res.headText ++ res.sendHeaders.2.endText

def texts : HttpOutput → List OutputCall → Bytes
  | _, [] => []
  | res, call :: calls => text res call ++ texts (after res call) calls

theorem perform_returned {call : OutputCall} {o o' : OutputSocket} {u : Unit}
    (h : call.perform.run o = (.returned u, o')) :
    o'.res = call.after o.res ∧
      o'.sock.output.written = o.sock.output.written ++ call.text o.res := by
  cases call with
  | setStatus status =>
    obtain ⟨-, rfl⟩ := Prod.mk.inj h
    exact ⟨rfl, (List.append_nil _).symm⟩
  | setHeader name value =>
    obtain ⟨-, rfl⟩ := Prod.mk.inj h
    exact ⟨rfl, (List.append_nil _).symm⟩
  | write src => exact HttpOutput.write_returned h
  | finish =>
    obtain ⟨hres, hw, -⟩ := HttpOutput.finish_returned h
    exact ⟨hres, hw⟩

theorem performAll_returned {calls : List OutputCall} {o o' : OutputSocket} {u : Unit}
    (h : (performAll calls).run o = (.returned u, o')) :
    o'.res = calls.foldl after o.res ∧
      o'.sock.output.written = o.sock.output.written ++ texts o.res calls := by
  induction calls generalizing o with
  | nil => exact HttpOutput.Emits.pure () o u o' h
  | cons call calls ih =>
    obtain ⟨_, o₁, h₁, h⟩ := Coro.returned_of_bind h
    obtain ⟨hres₁, hw₁⟩ := perform_returned h₁
    obtain ⟨hres, hw⟩ := ih h
    rw [hres₁] at hres hw
    exact ⟨hres, by rw [hw, hw₁, texts, List.append_assoc]⟩

/-! ## The response that calls describe -/

def writes (calls : List OutputCall) : List Bytes :=
  calls.filterMap fun
    | write src => some src
    | _ => none

def ends (calls : List OutputCall) : Nat :=
  calls.countP fun
    | finish => true
    | _ => false

/-- The output as the first write or end finds it. -/
def opened : HttpOutput → List OutputCall → HttpOutput
  | res, setStatus status :: calls => opened (res.setStatus status) calls
  | res, setHeader name value :: calls => opened (res.setHeader name value) calls
  | res, _ => res

/-- One head, and one complete body of the data written. -/
def response (res : HttpOutput) (calls : List OutputCall) : Bytes :=
  (opened res calls).headText ++ ((writes calls).flatMap (opened res calls).sendHeaders.2.dataText ++
    (opened res calls).sendHeaders.2.endText)

/-- Statuses have a reason phrase, data is not empty, and nothing is written after an end. -/
structure Proper (calls : List OutputCall) : Prop where
  phrase : ∀ status, setStatus status ∈ calls → (getStatusReasonPhrase status).isOk
  nonempty : ∀ src, write src ∈ calls → src ≠ []
  ordered : calls.Pairwise fun call call' => call = finish → ∀ src, call' ≠ write src

theorem Proper.tail {call : OutputCall} {calls : List OutputCall} (h : Proper (call :: calls)) :
    Proper calls where
  phrase status hmem := h.phrase status (List.mem_cons_of_mem _ hmem)
  nonempty src hmem := h.nonempty src (List.mem_cons_of_mem _ hmem)
  ordered := (List.pairwise_cons.mp h.ordered).2

theorem Proper.writes_of_finish {calls : List OutputCall} (h : Proper (finish :: calls)) :
    writes calls = [] := by
  rw [writes, List.filterMap_eq_nil_iff]
  intro call hcall
  have hno := (List.pairwise_cons.mp h.ordered).1 call hcall rfl
  cases call with
  | write src => exact absurd rfl (hno src)
  | setStatus status => rfl
  | setHeader name value => rfl
  | finish => rfl

theorem Proper.concat {calls : List OutputCall} (h : Proper calls) : Proper (calls ++ [finish]) where
  phrase status hmem := h.phrase status (by simpa using hmem)
  nonempty src hmem := h.nonempty src (by simpa using hmem)
  ordered := by
    refine List.pairwise_append.mpr ⟨h.ordered, List.pairwise_singleton _ _, fun call _ call' hlast => ?_⟩
    obtain rfl := List.mem_singleton.mp hlast
    exact fun _ src hsrc => by cases hsrc

theorem sendHeaders_of_sent {res : HttpOutput} (h : res.headersWritten) :
    res.sendHeaders.2 = res ∧ res.headText = [] := by
  rw [HttpOutput.sendHeaders, HttpOutput.headText, if_pos h, if_pos h]
  exact ⟨rfl, rfl⟩

theorem setHeader_keeps (res : HttpOutput) (name value : Bytes) :
    (res.setHeader name value).headersWritten = res.headersWritten ∧
      (res.setHeader name value).status = res.status ∧
      (res.setHeader name value).chunkedEncoding = res.chunkedEncoding := by
  rw [HttpOutput.setHeader]
  split <;> exact ⟨rfl, rfl, rfl⟩

/-- Once the head is out, every write adds its data and every end another end. -/
theorem texts_of_sent {calls : List OutputCall} (h : Proper calls) (res : HttpOutput)
    (hsent : res.headersWritten) : texts res calls =
      (writes calls).flatMap res.dataText ++ (List.replicate (ends calls) res.endText).flatten := by
  induction calls generalizing res with
  | nil => rfl
  | cons call calls ih =>
    obtain ⟨hsend, hhead⟩ := sendHeaders_of_sent hsent
    have hrest := h.tail
    cases call with
    | setStatus status => exact ih hrest (res.setStatus status) hsent
    | setHeader name value =>
      obtain ⟨hwritten, -, hchunked⟩ := setHeader_keeps res name value
      have hdata : (res.setHeader name value).dataText = res.dataText := by
        funext src
        rw [HttpOutput.dataText, HttpOutput.dataText, hchunked]
      have hend : (res.setHeader name value).endText = res.endText := by
        rw [HttpOutput.endText, HttpOutput.endText, hchunked]
      have hcalls := ih hrest (res.setHeader name value) (hwritten.trans hsent)
      rw [hdata, hend] at hcalls
      exact hcalls
    | write src =>
      rw [texts, text, after, hsend, hhead, ih hrest res hsent, List.nil_append, ← List.append_assoc]
      rfl
    | finish =>
      rw [texts, text, after, hsend, hhead, ih hrest res hsent, h.writes_of_finish, List.nil_append,
        List.flatMap_nil, List.nil_append]
      have hnone : writes (finish :: calls) = [] := h.writes_of_finish
      have hcount : ends (finish :: calls) = ends calls + 1 := List.countP_cons_of_pos rfl
      rw [hnone, hcount, List.replicate_succ, List.flatten_cons, List.flatMap_nil, List.nil_append]

theorem canEnd_of_phrase {res : HttpOutput} (h : (getStatusReasonPhrase res.status).isOk) :
    res.sendHeaders.1 = .ok () := (HttpOutput.sendHeaders_ok_iff res).mpr (.inr h)

theorem texts_concat {calls : List OutputCall} (h : Proper calls) (res : HttpOutput)
    (hnew : res.headersWritten = false) (hphrase : (getStatusReasonPhrase res.status).isOk) :
    texts res (calls ++ [finish]) = (opened res calls).headText ++
      ((writes calls).flatMap (opened res calls).sendHeaders.2.dataText ++
        (List.replicate (ends calls + 1) (opened res calls).sendHeaders.2.endText).flatten) := by
  induction calls generalizing res with
  | nil =>
    show (res.headText ++ res.sendHeaders.2.endText) ++ [] = _
    simp [opened, writes, ends]
  | cons call calls ih =>
    have hsent := HttpOutput.sendHeaders_sent (canEnd_of_phrase hphrase)
    have hrest := texts_of_sent h.tail.concat _ hsent
    have hwrites : writes (calls ++ [finish]) = writes calls := by
      rw [writes, List.filterMap_append]
      exact List.append_nil _
    have hends : ends (calls ++ [finish]) = ends calls + 1 := List.countP_append
    rw [hwrites, hends] at hrest
    cases call with
    | setStatus status =>
      exact ih h.tail (res.setStatus status) hnew (h.phrase status List.mem_cons_self)
    | setHeader name value =>
      obtain ⟨hsame, hstatus, -⟩ := setHeader_keeps res name value
      exact ih h.tail (res.setHeader name value) (hsame.trans hnew) (by rwa [hstatus])
    | write src =>
      have hopened : opened res (write src :: calls) = res := rfl
      have hcons : writes (write src :: calls) = src :: writes calls := rfl
      have hcount : ends (write src :: calls) = ends calls := List.countP_cons_of_neg (by simp)
      rw [List.cons_append, texts, text, after, hrest, hopened, hcons, hcount, List.flatMap_cons]
      simp only [List.append_assoc]
    | finish =>
      have hopened : opened res (finish :: calls) = res := rfl
      have hnone : writes calls = [] := h.writes_of_finish
      have hcons : writes (finish :: calls) = [] := h.writes_of_finish
      have hcount : ends (finish :: calls) = ends calls + 1 := List.countP_cons_of_pos rfl
      rw [List.cons_append, texts, text, after, hrest, hopened, hcons, hcount, hnone,
        List.replicate_succ (n := ends calls + 1), List.flatten_cons]
      simp only [List.flatMap_nil, List.nil_append, List.append_assoc]

theorem performAll_run {calls : List OutputCall} (h : Proper calls) {o : OutputSocket}
    (hsends : o.sock.output.SendsSucceed) (hend : o.res.CanEnd) :
    ∃ o', (performAll calls).run o = (.returned (), o') ∧ o'.sock.output.SendsSucceed ∧
      o'.res.CanEnd := by
  induction calls generalizing o with
  | nil => exact ⟨o, rfl, hsends, hend⟩
  | cons call calls ih =>
    have hsend := (HttpOutput.sendHeaders_ok_iff o.res).mpr hend
    have hsent : o.res.sendHeaders.2.CanEnd := .inl (HttpOutput.sendHeaders_sent hsend)
    obtain ⟨o₁, hrun₁, hsends₁, hend₁⟩ : ∃ o₁, call.perform.run o = (.returned (), o₁) ∧
        o₁.sock.output.SendsSucceed ∧ o₁.res.CanEnd := by
      cases call with
      | setStatus status =>
        exact ⟨_, rfl, hsends, .inr (h.phrase status List.mem_cons_self)⟩
      | setHeader name value =>
        obtain ⟨hsame, hstatus, -⟩ := setHeader_keeps o.res name value
        refine ⟨_, rfl, hsends, ?_⟩
        show (o.res.setHeader name value).CanEnd
        rw [HttpOutput.CanEnd, hsame, hstatus]
        exact hend
      | write src =>
        obtain ⟨s', hrun, hw⟩ := HttpOutput.write_run hsends src
        rw [HttpOutput.send, if_neg (h.nonempty src List.mem_cons_self), hsend] at hrun
        exact ⟨_, hrun, hw.2.2.1, hsent⟩
      | finish =>
        obtain ⟨s', hrun, hw, -⟩ := HttpOutput.finish_run hsends
        rw [hsend] at hrun
        exact ⟨_, hrun, hw.2.2.1, hsent⟩
    obtain ⟨o', hrun, hrest⟩ := ih h.tail hsends₁ hend₁
    exact ⟨o', by rw [performAll, Coro.bind_returned _ hrun₁, hrun], hrest⟩

/-- The calls of an endpoint, then the end that the server adds. -/
def serveAll (calls : List OutputCall) : Coro OutputSocket Exn Unit := do
  performAll calls
  HttpOutput.finish

theorem serveAll_returned {calls : List OutputCall} (h : Proper calls) {o o' : OutputSocket}
    (hnew : o.res.headersWritten = false) (hphrase : (getStatusReasonPhrase o.res.status).isOk)
    (hrun : (serveAll calls).run o = (.returned (), o')) :
    o'.sock.output.sent = o.sock.output.written ++ ((opened o.res calls).headText ++
      ((writes calls).flatMap (opened o.res calls).sendHeaders.2.dataText ++
        (List.replicate (ends calls + 1) (opened o.res calls).sendHeaders.2.endText).flatten)) := by
  obtain ⟨_, o₁, h₁, h₂⟩ := Coro.returned_of_bind hrun
  obtain ⟨hres₁, hw₁⟩ := performAll_returned h₁
  obtain ⟨-, hw₂, hsent⟩ := HttpOutput.finish_returned h₂
  have happend : ∀ res, texts res (calls ++ [finish]) =
      texts res calls ++ text (calls.foldl after res) finish := by
    clear h hrun h₁ hres₁ hw₁
    induction calls with
    | nil => exact fun res => List.append_nil _
    | cons call calls ih =>
      intro res
      rw [List.cons_append, texts, ih, texts, List.append_assoc]
      rfl
  rw [← texts_concat h _ hnew hphrase, happend, hsent, hw₂, hw₁, hres₁, List.append_assoc]
  rfl

theorem headersWritten_opened (calls : List OutputCall) (res : HttpOutput) :
    (opened res calls).headersWritten = res.headersWritten := by
  induction calls generalizing res with
  | nil => rfl
  | cons call calls ih =>
    cases call with
    | setStatus status => exact ih (res.setStatus status)
    | setHeader name value =>
      exact (ih (res.setHeader name value)).trans (setHeader_keeps res name value).1
    | write src => rfl
    | finish => rfl

theorem chunkedEncoding_sendHeaders {res : HttpOutput} (h : res.headersWritten = false) :
    res.sendHeaders.2.chunkedEncoding = HttpOutput.encodesChunked res.headers := by
  rw [HttpOutput.sendHeaders, if_neg (by simp [h])]
  simp only
  split <;> rfl

theorem ends_eq_zero_iff (calls : List OutputCall) : ends calls = 0 ↔ finish ∉ calls := by
  rw [ends, List.countP_eq_zero]
  constructor
  · intro h hmem
    exact h finish hmem rfl
  · intro h call hcall
    cases call with
    | setStatus status => exact Bool.false_ne_true
    | setHeader name value => exact Bool.false_ne_true
    | write src => exact Bool.false_ne_true
    | finish => exact absurd hcall h

theorem serveAll_run {calls : List OutputCall} (h : Proper calls) {o : OutputSocket}
    (hsends : o.sock.output.SendsSucceed) (hend : o.res.CanEnd) :
    ∃ o', (serveAll calls).run o = (.returned (), o') := by
  obtain ⟨o₁, hrun₁, hsends₁, hend₁⟩ := performAll_run h hsends hend
  obtain ⟨s', hrun, -⟩ := HttpOutput.finish_run hsends₁
  rw [(HttpOutput.sendHeaders_ok_iff o₁.res).mpr hend₁] at hrun
  exact ⟨_, by rw [serveAll, Coro.bind_returned _ hrun₁, hrun]; rfl⟩

/-- The last chunk goes out once more for every end of the endpoint. -/
theorem sent_eq_response_iff {calls : List OutputCall} (h : Proper calls) {o o' : OutputSocket}
    (hnew : o.res.headersWritten = false) (hphrase : (getStatusReasonPhrase o.res.status).isOk)
    (hrun : (serveAll calls).run o = (.returned (), o')) :
    o'.sock.output.sent = o.sock.output.written ++ response o.res calls ↔
      ¬ (HttpOutput.encodesChunked (opened o.res calls).headers ∧ .finish ∈ calls) := by
  have hopened := (headersWritten_opened calls o.res).trans hnew
  rw [serveAll_returned h hnew hphrase hrun, response, List.append_cancel_left_eq,
    List.append_cancel_left_eq, List.append_cancel_left_eq, List.replicate_succ,
    List.flatten_cons, List.append_right_eq_self, HttpOutput.endText,
    chunkedEncoding_sendHeaders hopened, ← not_iff_not, not_not]
  constructor
  · intro hmore
    constructor
    · by_contra hplain
      rw [if_neg hplain] at hmore
      exact hmore (by simp)
    · by_contra hnone
      rw [(ends_eq_zero_iff calls).mpr hnone] at hmore
      exact hmore rfl
  · rintro ⟨hchunked, hmem⟩ hnone
    rw [if_pos hchunked, List.flatten_eq_nil_iff] at hnone
    have hpos : ends calls ≠ 0 := fun h => (ends_eq_zero_iff calls).mp h hmem
    exact absurd (hnone _ (List.mem_replicate.mpr ⟨hpos, rfl⟩)) (by decide)

end OutputCall

open OutputCall

/-- Proper calls on a new response, followed by the end of the server, return where the sends succeed; and
if they return, the bytes that were sent are the one response that the calls describe exactly if it is not
chunked or was not ended by the calls. -/
theorem one_response_iff (traversal : HeaderMap → List (Bytes × Bytes)) (calls : List OutputCall)
    (h : Proper calls) (sock : Socket) :
    (sock.output.SendsSucceed →
      ∃ o', (serveAll calls).run ⟨{ traversal := traversal }, sock⟩ = (.returned (), o')) ∧
    ∀ o', (serveAll calls).run ⟨{ traversal := traversal }, sock⟩ = (.returned (), o') →
      (o'.sock.output.sent = sock.output.written ++ response { traversal := traversal } calls ↔
        ¬ (HttpOutput.encodesChunked (opened { traversal := traversal } calls).headers ∧
          .finish ∈ calls)) :=
  ⟨fun hsends => serveAll_run h hsends (.inr rfl), fun _ hrun => sent_eq_response_iff h rfl rfl hrun⟩

theorem one_response_hi : ∃ o',
    (serveAll [.write (ascii "hi")]).run
        ⟨{ traversal := id }, Socket.new [] fun _ => .accepted 0⟩ = (.returned (), o') ∧
      o'.sock.output.sent = (Socket.new [] fun _ => .accepted 0).output.written ++
        response { traversal := id } [.write (ascii "hi")] := by
  obtain ⟨hruns, hiff⟩ := one_response_iff id [.write (ascii "hi")] ⟨by simp, by simp [ascii],
    List.pairwise_singleton _ _⟩ (Socket.new [] fun _ => .accepted 0)
  obtain ⟨o', hrun⟩ := hruns fun _ => ⟨0, rfl⟩
  exact ⟨o', hrun, (hiff o' hrun).mpr fun h => by simp at h⟩

/-- A chunked response that the endpoint ends. -/
def chunkedHi : List OutputCall :=
  [.setHeader transferEncoding chunked, .write (ascii "hi"), .finish]

theorem proper_chunkedHi : Proper chunkedHi where
  phrase status h := by simp [chunkedHi] at h
  nonempty src h := by
    obtain rfl : src = ascii "hi" := by simpa [chunkedHi] using h
    decide
  ordered := by simp [chunkedHi]

/-- The server's end sends a second last chunk. -/
theorem two_last_chunks : ∃ o',
    (serveAll chunkedHi).run ⟨{ traversal := id }, Socket.new [] fun _ => .accepted 0⟩ =
      (.returned (), o') ∧
    o'.sock.output.sent ≠ (Socket.new [] fun _ => .accepted 0).output.written ++
      response { traversal := id } chunkedHi := by
  have hsends : (Socket.new [] fun _ => .accepted 0).output.SendsSucceed := fun _ => ⟨0, rfl⟩
  obtain ⟨o', hrun⟩ := serveAll_run proper_chunkedHi
    (o := ⟨{ traversal := id }, Socket.new [] fun _ => .accepted 0⟩) hsends (.inr rfl)
  refine ⟨o', hrun, fun hsent => ?_⟩
  refine (sent_eq_response_iff proper_chunkedHi rfl rfl hrun).mp hsent ⟨by decide, ?_⟩
  simp [chunkedHi]

/-! ## A head that cannot go out -/

namespace OutputCall

def Sends : OutputCall → Prop
  | setStatus _ | setHeader _ _ => False
  | write src => src ≠ []
  | finish => True

/-- If the call throws because the status has no reason phrase, nothing was sent, and a call under another
status sends what it would have sent in its place. -/
def FailsCleanly (call : OutputCall) (o : OutputSocket) : Prop :=
  ∀ e o₁, getStatusReasonPhrase o.res.status = .error e → call.perform.run o = (.threw e, o₁) →
    o₁.sock.output.written = o.sock.output.written ∧
    ∀ status again o₂, (performAll [setStatus status, again]).run o₁ = (.returned (), o₂) →
      o₂.sock.output.written = o.sock.output.written ++ again.text (o.res.setStatus status)

/-- The front of the status line is out before the phrase is looked up. -/
theorem perform_without_phrase {call : OutputCall} (hcall : call.Sends) {o : OutputSocket} {e : Exn}
    (hnew : o.res.headersWritten = false) (hphrase : getStatusReasonPhrase o.res.status = .error e)
    (hsends : o.sock.output.SendsSucceed) :
    ∃ o₁, call.perform.run o = (.threw e, o₁) ∧
      o₁.sock.output.written = o.sock.output.written ++ ascii "HTTP/1.1 " := by
  have hunsent : ¬ o.res.headersWritten = true := by simp [hnew]
  have hsend : o.res.sendHeaders =
      (.error e, { o.res with chunkedEncoding := HttpOutput.encodesChunked o.res.headers }) := by
    rw [HttpOutput.sendHeaders, if_neg hunsent]
    simp only [hphrase]
  have hhead : o.res.headText = ascii "HTTP/1.1 " := by
    rw [HttpOutput.headText, if_neg hunsent]
    simp only [hphrase, List.append_nil]
  cases call with
  | setStatus status => exact hcall.elim
  | setHeader name value => exact hcall.elim
  | write src =>
    obtain ⟨s₁, hrun, -, -, -, hw⟩ := HttpOutput.write_run hsends src
    rw [HttpOutput.send, if_neg hcall, hsend] at hrun
    rw [HttpOutput.sendText, if_neg hcall, hsend, hhead, List.append_nil] at hw
    exact ⟨_, hrun, hw⟩
  | finish =>
    obtain ⟨s₁, hrun, ⟨-, -, -, hw⟩, -⟩ := HttpOutput.finish_run hsends
    rw [hsend] at hrun
    rw [HttpOutput.finishText, hsend, hhead, List.append_nil] at hw
    exact ⟨_, hrun, hw⟩

theorem not_failsCleanly {call : OutputCall} (hcall : call.Sends) {o : OutputSocket}
    (hnew : o.res.headersWritten = false) (hphrase : ¬ (getStatusReasonPhrase o.res.status).isOk)
    (hsends : o.sock.output.SendsSucceed) : ¬ call.FailsCleanly o := by
  intro h
  cases hp : getStatusReasonPhrase o.res.status with
  | ok phrase => exact hphrase (by rw [hp]; rfl)
  | error e =>
    obtain ⟨o₁, hrun, hw⟩ := perform_without_phrase hcall hnew hp hsends
    have hsame := (h e o₁ hp hrun).1
    rw [hw, List.append_right_eq_self] at hsame
    exact absurd hsame (by decide)

theorem phrase_ne_error (status : HttpStatus) : getStatusReasonPhrase status ≠
    .error (.runtimeError "http_output write: size less than or equal 0") := by
  cases status <;> simp [getStatusReasonPhrase]

/-- A call with nothing to send does not get to the status line. -/
theorem failsCleanly_of_not_sends {call : OutputCall} (hcall : ¬ call.Sends) (o : OutputSocket) :
    call.FailsCleanly o := by
  intro e o₁ hphrase hrun
  cases call with
  | setStatus status => cases (Prod.mk.inj hrun).1
  | setHeader name value => cases (Prod.mk.inj hrun).1
  | write src =>
    obtain rfl : src = [] := not_not.mp hcall
    obtain ⟨he, rfl⟩ := Prod.mk.inj hrun
    obtain rfl := Outcome.threw.inj he
    exact absurd hphrase (phrase_ne_error _)
  | finish => exact absurd trivial hcall

/-- Before the head is out, a call on a response leaves the output as it was when its head cannot go out
exactly if that does not happen: its status has a reason phrase, or there is nothing to send. -/
theorem fails_cleanly_iff {res : HttpOutput} (hnew : res.headersWritten = false) (sock : Socket)
    (call : OutputCall) :
    (∀ sends, call.FailsCleanly ⟨res, { sock with output := { sock.output with sends := sends } }⟩) ↔
      (getStatusReasonPhrase res.status).isOk ∨ ¬ call.Sends := by
  constructor
  · intro h
    by_contra hnot
    rw [not_or, not_not] at hnot
    exact not_failsCleanly hnot.2 hnew hnot.1 (fun _ => ⟨0, rfl⟩) (h fun _ => .accepted 0)
  · rintro (hphrase | hcall) sends
    · intro e o₁ herror
      rw [herror] at hphrase
      cases hphrase
    · exact failsCleanly_of_not_sends hcall _

theorem fails_cleanly_ok : (∀ sends, finish.FailsCleanly
      ⟨{ traversal := id }, { Socket.new [] sends with output := Output.ofPeer sends }⟩) ↔
    (getStatusReasonPhrase .OK).isOk ∨ ¬ finish.Sends :=
  fails_cleanly_iff rfl (Socket.new [] fun _ => .stalled) finish

/-- The status that has no phrase. -/
theorem not_fails_cleanly : ¬ finish.FailsCleanly
    ⟨{ status := .INSUFFICIENT_STORAGE, traversal := id }, Socket.new [] fun _ => .accepted 0⟩ :=
  not_failsCleanly (show finish.Sends from trivial) rfl Bool.false_ne_true fun _ => ⟨0, rfl⟩

end OutputCall

end CppEvent
