import CppEvent.Http.Decoding
import CppEvent.Http.HeaderLines
import CppEvent.Http.RequestLine
import CppEvent.Http.Server

/-!
# Requests on the wire

A request (`Message`) is written as its request line, its header lines and its body. The server reads
the two former, in whatever packets they come, into the request that they spell (`Message.parsed`),
and goes on with `handleRequest` at the first byte of the body (`connectionRound_run`).
-/

namespace CppEvent

open Coroutine

/-- A header, as it may stand on a line of its own. -/
structure Header where
  name : Bytes
  value : Bytes
  name_ne_nil : name ≠ []
  value_ne_nil : value ≠ []
  name_trimmed : Trimmed name
  value_trimmed : Trimmed value
  colon_not_mem : colon ∉ name
  cr_not_mem : cr ∉ name ∧ cr ∉ value
  lf_not_mem : lf ∉ name ∧ lf ∉ value

namespace Header

def line (h : Header) : Bytes := h.name ++ colon :: space :: h.value

def wire (h : Header) : Bytes := h.line ++ [cr, lf]

def named (headers : List Header) (name : Bytes) : List Header :=
  headers.filter fun h => caseInsensitiveEquality h.name name

/-- The value under a name, which is the last one there. -/
def lookup (headers : List Header) (name : Bytes) : Option Bytes :=
  (named headers name).getLast?.map value

/-- The header map that the lines of the headers make of a header map. -/
def store (headers : List Header) (m : HeaderMap) : HeaderMap :=
  headers.foldl (fun m h => m.assign h.name h.value) m

theorem line_ne_nil (h : Header) : h.line ≠ [] := by simp [line]

theorem lf_not_mem_line (h : Header) : lf ∉ h.line := by
  simp [line, h.lf_not_mem, lf, colon, space]

theorem find_store (headers : List Header) (name : Bytes) :
    HeaderMap.find (store headers []) name = lookup headers name := by
  have hpairs (m : HeaderMap) : store headers m =
      (headers.map fun h => (h.name, h.value)).foldl (fun m p => m.assign p.1 p.2) m := by
    rw [store, List.foldl_map]
  rw [hpairs]
  refine (AssocMap.find_foldl_assign isEquality_caseInsensitive _ [] name).trans ?_
  rw [AssocMap.find, Option.or_none, List.filter_map, List.getLast?_map, Option.map_map]
  rfl

theorem isHeaderLine (h : Header) : IsHeaderLine h.line h.name h.value :=
  ⟨h.name, space :: h.value, rfl, h.colon_not_mem,
    isTrimOf_iff.mpr (trimString_of_trimmed h.name_trimmed), ⟨⟨1, 0, by simp⟩, h.value_trimmed⟩,
    h.name_ne_nil, h.value_ne_nil⟩

end Header

/-- Header lines and the empty line after them are read into the header map. -/
theorem readHeaders_run (req : HttpRequest) (headers : List Header) (rest : Bytes) {s : Socket}
    (h : s.pending = headers.flatMap Header.wire ++ [cr, lf] ++ rest) :
    ∃ s', (readHeaders req).run s =
        (.returned (⟨[], true⟩, { req with headers := Header.store headers req.headers }), s') ∧
      s.Consumes (headers.flatMap Header.wire ++ [cr, lf]) s' := by
  -- between rounds the lines of the first headers have been read
  obtain ⟨⟨line, req'⟩, s', hrun, ⟨rfl, rfl⟩, hc⟩ := Coro.loop_returns
    (fun s : Socket => s.pending.length + 1) headerRound
    (fun r s' => ∃ done left, headers = done ++ left ∧
      r = { req with headers := Header.store done req.headers } ∧
      s.Consumes (done.flatMap Header.wire) s')
    (fun p s' => (p.1 = ⟨[], true⟩ ∧
        p.2 = { req with headers := Header.store headers req.headers }) ∧
      s.Consumes (headers.flatMap Header.wire ++ [cr, lf]) s')
    (fun _ s' => s'.pending.length) req s ⟨[], headers, rfl, rfl, Socket.Consumes.refl s⟩
    (Nat.lt_succ_self _) (fun r s₁ ⟨done, left, hsplit, hr, hc⟩ => by
      have hp : s₁.pending = left.flatMap Header.wire ++ [cr, lf] ++ rest := hc.rest_eq (by
        rw [h, hsplit, List.flatMap_append]
        simp only [List.append_assoc])
      cases left with
      | nil =>
        obtain ⟨s₂, hline, hc₂⟩ := readHttpLine_crlf [] rest (by simp) hp
        refine .inr ⟨(⟨[], true⟩, r), s₂, ?_, ⟨rfl, ?_⟩, ?_⟩
        · rw [headerRound, Coro.bind_returned _ hline]
          rfl
        · rw [hr, hsplit, List.append_nil]
        · rw [hsplit, List.append_nil]
          exact hc.trans hc₂
      | cons header left =>
        obtain ⟨s₂, hline, hc₂⟩ := readHttpLine_crlf header.line
          (left.flatMap Header.wire ++ [cr, lf] ++ rest) header.lf_not_mem_line (by
            rw [hp, List.flatMap_cons, Header.wire]
            simp only [List.append_assoc])
        have hvalue : HttpLine.hasValue ⟨header.line, true⟩ = true := by
          simp [HttpLine.hasValue, header.line_ne_nil]
        refine .inl ⟨{ r with headers := r.headers.assign header.name header.value }, s₂, ?_,
          ⟨done ++ [header], left, by rw [hsplit, List.append_assoc]; rfl, ?_, ?_⟩, ?_⟩
        · rw [headerRound, Coro.bind_returned _ hline, if_pos hvalue,
            HttpRequest.processHeaderLine_header header.isHeaderLine]
          rfl
        · rw [hr, Header.store, Header.store, List.foldl_append]
          rfl
        · rw [List.flatMap_append, List.flatMap_singleton]
          exact hc.trans hc₂
        · have := congrArg List.length hc₂.pending_eq
          simp only [List.length_append, List.length_cons] at this
          omega)
  exact ⟨s', hrun, hc⟩

/-! ## Messages -/

inductive MessageBody where
  | none
  | counted (data : Bytes)
  | chunked (body : ChunkedBody)

namespace MessageBody

/-- The whole of the body, as what a reader has left at its start. -/
def left : MessageBody → Left
  | none => .counted []
  | counted data => .counted data
  | chunked body => .before body

/-- The headers say how the body is sent, and nothing else about it. -/
def FramedBy (headers : List Header) : MessageBody → Prop
  | none => Header.named headers contentLength = [] ∧ Header.named headers transferEncoding = []
  | counted data => Header.named headers transferEncoding = [] ∧
      ∃ h, Header.named headers contentLength = [h] ∧ Numeral.IsNumeral (digit 10) h.value ∧
        Numeral.value (digit 10) 10 h.value = data.length ∧ data.length < 2 ^ 63
  | chunked _ => Header.named headers contentLength = [] ∧
      ∃ h, Header.named headers transferEncoding = [h] ∧
        (findCaseInsensitive h.value CppEvent.chunked).isSome

end MessageBody

def HttpMethod.text : HttpMethod → Bytes
  | .GET => ascii "GET"
  | .POST => ascii "POST"
  | .HEAD => ascii "HEAD"
  | .OPTIONS => ascii "OPTIONS"

def HttpVersion.text : HttpVersion → Bytes
  | .HTTP_1_0 => ascii "HTTP/1.0"
  | .HTTP_1_1 => ascii "HTTP/1.1"

structure Message where
  method : HttpMethod
  target : Bytes
  version : HttpVersion
  headers : List Header
  body : MessageBody
  target_ne_nil : target ≠ []
  space_not_mem : space ∉ target
  cr_not_mem : cr ∉ target
  lf_not_mem : lf ∉ target
  framed : body.FramedBy headers

namespace Message

def requestLine (m : Message) : Bytes :=
  m.method.text ++ space :: (m.target ++ space :: m.version.text)

def head (m : Message) : Bytes :=
  m.requestLine ++ [cr, lf] ++ (m.headers.flatMap Header.wire ++ [cr, lf])

def wire (m : Message) : Bytes := m.head ++ m.body.left.wire

def path (m : Message) : Bytes := m.target.takeWhile (· != 63)

def query (m : Message) : Bytes := (m.target.dropWhile (· != 63)).tail

def data (m : Message) : Bytes := m.body.left.data

/-- The request that is read from the head. -/
def parsed (m : Message) : HttpRequest :=
  { method := m.method
    version := m.version
    uri := m.target
    path := m.path
    query := m.query
    queryParams := retrieveParams m.query
    headers := Header.store m.headers [] }

def KeepAlive (m : Message) : Prop :=
  (findCaseInsensitive ((Header.lookup m.headers (ascii "connection")).getD
    (getDefaultConnType m.version)) (ascii "keep-alive")).isSome

theorem lf_not_mem_requestLine (m : Message) : lf ∉ m.requestLine := by
  have hmethod : lf ∉ m.method.text := by cases m.method <;> decide
  have hversion : lf ∉ m.version.text := by cases m.version <;> decide
  simp [requestLine, hmethod, hversion, m.lf_not_mem, lf, space]

theorem processUri_target (m : Message) (req : HttpRequest) (hquery : req.query = [])
    (hparams : req.queryParams = []) :
    req.processUri m.target = { req with
      uri := m.target
      path := m.path
      query := m.query
      queryParams := retrieveParams m.query } := by
  rw [HttpRequest.processUri, query]
  cases m.target.dropWhile (· != 63) with
  | nil =>
    simp only [List.tail_nil]
    rw [show retrieveParams [] = [] from rfl, ← hquery, ← hparams]
    rfl
  | cons c query => rfl

theorem processReqLine_requestLine (m : Message) :
    ({} : HttpRequest).processReqLine m.requestLine =
      (true, { m.parsed with headers := [] }) := by
  have hmethod : (m.method.text, m.method) ∈ methodMap := by cases m.method <;> decide
  have hversion : (m.version.text, m.version) ∈ versionMap := by cases m.version <;> decide
  rw [requestLine, HttpRequest.processReqLine_words hmethod hversion m.target_ne_nil
    m.space_not_mem, m.processUri_target _ rfl rfl]
  rfl

/-- The server finds the body framed as the client sent it. -/
theorem framing_parsed (m : Message) : m.parsed.framing = some m.body.left.state := by
  have hget (name : Bytes) : m.parsed.getHeader name = Header.lookup m.headers name :=
    Header.find_store m.headers name
  have hframed := m.framed
  rw [HttpRequest.framing, hget, hget]
  cases hbody : m.body with
  | none =>
    rw [hbody] at hframed
    simp only [Header.lookup, hframed.1, hframed.2]
    rfl
  | counted data =>
    rw [hbody] at hframed
    obtain ⟨_, h, hnamed, hnumeral, hvalue, hlt⟩ := hframed
    have hfrom := @fromChars_numeral 10 h.value [] hnumeral (fun c hc => by simp at hc)
      (by rw [hvalue]; exact hlt)
    rw [List.append_nil, hvalue] at hfrom
    have hlookup : (Header.lookup m.headers contentLength).getD [] = h.value := by
      rw [Header.lookup, hnamed]
      rfl
    simp only [hlookup, ne_eq, h.value_ne_nil, not_false_eq_true, if_true, hfrom]
    rfl
  | chunked body =>
    rw [hbody] at hframed
    obtain ⟨hnone, h, hnamed, hchunked⟩ := hframed
    have hlookup : (Header.lookup m.headers contentLength).getD [] = [] := by
      rw [Header.lookup, hnone]
      rfl
    have hlookup' : (Header.lookup m.headers transferEncoding).getD [] = h.value := by
      rw [Header.lookup, hnamed]
      rfl
    simp only [hlookup, hlookup', ne_eq, not_true_eq_false, if_false, hchunked, if_true]
    rfl

end Message

namespace HttpServer

variable {E α : Type}

theorem run_onSocket {t : Coro Socket Exn α} {c : Connection E} {s : Socket} {o : Outcome Exn α}
    (h : t.run c.sock = (o, s)) :
    (onSocket t).run c = (o, { c with sock := s }) := Coro.run_focus h

/-- A round reads the head of a message and handles the request that it spells, with the socket at
the first byte of the body. -/
theorem connectionRound_run (server : HttpServer E) (m : Message) {c : Connection E} {rest : Bytes}
    (h : c.sock.pending = m.wire ++ rest) :
    ∃ s, c.sock.Consumes m.head s ∧ (connectionRound server ()).run c =
      (handleRequest server m.parsed m.body.left.state).run { c with sock := s } := by
  obtain ⟨s₁, hline, hc₁⟩ := readHttpLine_crlf m.requestLine
    (m.headers.flatMap Header.wire ++ [cr, lf] ++ (m.body.left.wire ++ rest))
    m.lf_not_mem_requestLine (by
      rw [h, Message.wire, Message.head]
      simp only [List.append_assoc])
  obtain ⟨s₂, hheaders, hc₂⟩ := readHeaders_run { m.parsed with headers := [] } m.headers
    (m.body.left.wire ++ rest) (hc₁.rest_eq (by
      rw [h, Message.wire, Message.head]
      simp only [List.append_assoc]))
  have hvalue : HttpLine.hasValue ⟨m.requestLine, true⟩ = true := by
    simp [HttpLine.hasValue, Message.requestLine]
  refine ⟨s₂, hc₁.trans hc₂, ?_⟩
  rw [connectionRound, Coro.bind_returned _ (run_onSocket hline), hvalue, Bool.not_true,
    if_neg Bool.false_ne_true, m.processReqLine_requestLine]
  simp only [Bool.not_true, Bool.false_eq_true, if_false]
  have hparsed : (readHeaders { m.parsed with headers := [] }).run s₁ =
      (.returned (⟨[], true⟩, m.parsed), s₂) := hheaders
  have hlast : HttpLine.isLastLine ⟨[], true⟩ = true := rfl
  rw [Coro.bind_returned _ (run_onSocket hparsed)]
  simp only [hlast, Bool.not_true, Bool.false_eq_true, if_false, m.framing_parsed]

/-- At the end of what the client sent a round makes no call and is the last one. -/
theorem connectionRound_eof (server : HttpServer E) {c : Connection E} (h : c.sock.pending = []) :
    ((connectionRound server ()).run c).2.calls = c.calls ∧
      ((connectionRound server ()).run c).1 ≠ .returned (.inl ()) := by
  rcases hrun : readHttpLine.run c.sock with ⟨o, s⟩
  cases o with
  | returned l =>
    obtain rfl := readHttpLine_eof h hrun
    rw [connectionRound, Coro.bind_returned _ (run_onSocket hrun)]
    exact ⟨rfl, by simp [HttpLine.hasValue]⟩
  | threw e =>
    rw [connectionRound, Coro.bind_threw _ (run_onSocket hrun)]
    exact ⟨rfl, by simp⟩
  | suspended =>
    rw [connectionRound, Coro.bind_suspended _ (run_onSocket hrun)]
    exact ⟨rfl, by simp⟩
  | undefined =>
    rw [connectionRound, Coro.bind_undefined _ (run_onSocket hrun)]
    exact ⟨rfl, by simp⟩

end HttpServer

end CppEvent
