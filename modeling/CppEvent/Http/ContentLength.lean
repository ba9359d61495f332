import CppEvent.Http.Message

/-!
# Which content-lengths are taken

`on_connection` hands a content-length to `std::from_chars` and asks only whether that failed or the value
is negative. So it goes on with a length that is no numeral, but has one at its front or a sign before
zeros (`Lenient`). On all others it is strict (`contentLength_strict_iff`).
-/

namespace CppEvent

open Coroutine

/-! ## What headers hold -/

namespace HttpRequest

def ValuesNonempty (req : HttpRequest) : Prop :=
  ∀ name value, req.getHeader name = some value → value ≠ []

theorem headers_processReqLine (line : Bytes) :
    (({} : HttpRequest).processReqLine line).2.headers = [] := by
  have huri (req : HttpRequest) (uri : Bytes) : (processUri req uri).headers = req.headers := by
    rw [processUri]
    cases uri.dropWhile (· != 63) <;> rfl
  rw [processReqLine]
  split
  · cases AssocMap.find (· == ·) methodMap _ with
    | none => rfl
    | some method =>
      simp only
      cases AssocMap.find (· == ·) versionMap _ <;> exact huri _ _
  · rfl

theorem valuesNonempty_processReqLine (line : Bytes) :
    (({} : HttpRequest).processReqLine line).2.ValuesNonempty := by
  intro name value hget
  rw [getHeader, headers_processReqLine] at hget
  cases hget

theorem ValuesNonempty.processHeaderLine {req : HttpRequest} (h : req.ValuesNonempty)
    (line : Bytes) : (req.processHeaderLine line).2.ValuesNonempty := by
  rw [HttpRequest.processHeaderLine]
  split
  · exact h
  · simp only
    split
    · exact h
    · rename_i hne
      rw [not_or] at hne
      intro name value hget
      rw [getHeader, HeaderMap.assign, HeaderMap.find,
        AssocMap.find_assign isEquality_caseInsensitive] at hget
      split at hget
      · rw [← Option.some.inj hget]
        exact hne.2
      · exact h name value hget

end HttpRequest

theorem headerRound_ensures {req : HttpRequest} (h : req.ValuesNonempty) :
    Coro.Ensures (headerRound req)
      (Sum.elim HttpRequest.ValuesNonempty fun p => p.2.ValuesNonempty) := by
  refine .bind (.trivial _) fun line _ => ?_
  have hline := h.processHeaderLine line.val
  by_cases hvalue : line.hasValue
  · rw [if_pos hvalue]
    rcases hprocess : req.processHeaderLine line.val with ⟨ok, req'⟩
    rw [hprocess] at hline
    cases ok
    · exact .pure hline
    · exact .pure hline
  · rw [if_neg hvalue]
    exact .pure h

theorem readHeaders_ensures {req : HttpRequest} (h : req.ValuesNonempty) :
    Coro.Ensures (readHeaders req) fun p => p.2.ValuesNonempty :=
  .loop HttpRequest.ValuesNonempty (fun _ hreq => headerRound_ensures hreq) h

/-! ## From the headers on -/

namespace HttpServer

variable {E : Type}

/-- From `c` on a round reads a request line and headers that make up `req`, and gets to `c'`. -/
def Receives (c : Connection E) (req : HttpRequest) (c' : Connection E) : Prop :=
  ∃ reqLine s₁ s₂ headerLine, readHttpLine.run c.sock = (.returned reqLine, s₁) ∧
    reqLine.hasValue ∧ (({} : HttpRequest).processReqLine reqLine.val).1 ∧
    (readHeaders (({} : HttpRequest).processReqLine reqLine.val).2).run s₁ =
      (.returned (headerLine, req), s₂) ∧
    headerLine.isLastLine ∧ c' = { c with sock := s₂ }

theorem Receives.valuesNonempty {c c' : Connection E} {req : HttpRequest}
    (h : Receives c req c') : req.ValuesNonempty := by
  obtain ⟨reqLine, s₁, s₂, headerLine, -, -, -, hheaders, -⟩ := h
  exact readHeaders_ensures (HttpRequest.valuesNonempty_processReqLine reqLine.val) s₁ _ s₂ hheaders

theorem Receives.calls_eq {c c' : Connection E} {req : HttpRequest} (h : Receives c req c') :
    c'.calls = c.calls := by
  obtain ⟨_, _, _, _, _, _, _, _, _, rfl⟩ := h
  rfl

/-- The round handles the request with the body that its headers frame, or leaves the loop. -/
theorem connectionRound_receives (server : HttpServer E) {c c' : Connection E} {req : HttpRequest}
    (h : Receives c req c') : (connectionRound server ()).run c = match req.framing with
      | none => (.returned (.inr ()), c')
      | some body => (handleRequest server req body).run c' := by
  obtain ⟨reqLine, s₁, s₂, headerLine, hline, hvalue, hok, hheaders, hlast, rfl⟩ := h
  rw [connectionRound, Coro.bind_returned _ (run_onSocket hline), hvalue, Bool.not_true,
    if_neg Bool.false_ne_true]
  rcases hreq : ({} : HttpRequest).processReqLine reqLine.val with ⟨ok, req₀⟩
  rw [hreq] at hok hheaders
  obtain rfl : ok = true := hok
  simp only [Bool.not_true, Bool.false_eq_true, if_false]
  rw [Coro.bind_returned _ (run_onSocket hheaders)]
  simp only [hlast, Bool.not_true, Bool.false_eq_true, if_false]
  cases req.framing <;> rfl

/-- A request whose length is refused is the last thing that the loop reads. -/
theorem onConnection_refuses (server : HttpServer E) {c c' : Connection E} {req : HttpRequest}
    (h : Receives c req c') (hnone : req.framing = none) :
    server.onConnection.run c = (onSocket Socket.shutdown).run c' := by
  have hround := connectionRound_receives server h
  rw [hnone] at hround
  have hloop : (Coro.loop (fun c => c.sock.awaited.length + 1) (connectionRound server) ()).run c =
      (.returned (), c') := Coro.iterate_inr hround
  rw [onConnection, Coro.bind_returned _ hloop]

end HttpServer

/-! ## The content-length -/

/-- The value is a numeral of `n` in the range of `long`, without a sign. -/
def StrictLength (value : Bytes) (n : Nat) : Prop :=
  Numeral.IsNumeral (digit 10) value ∧ n = Numeral.value (digit 10) 10 value ∧ n < 2 ^ 63

/-- The value has a length at its front and then more, or it has a minus sign before zeros. -/
def Lenient (value : Bytes) : Prop := ∃ text rest, value = text ++ rest ∧
  Numeral.Stops (digit 10) rest ∧
  ((rest ≠ [] ∧ ∃ n, StrictLength text n) ∨
    ∃ zeros, text = 45 :: zeros ∧ Numeral.IsNumeral (digit 10) zeros ∧
      Numeral.value (digit 10) 10 zeros = 0)

namespace HttpRequest

theorem framing_eq_some_iff {req : HttpRequest} {value : Bytes} {body : HttpBody}
    (hget : req.getHeader contentLength = some value) (hne : value ≠ []) :
    req.framing = some body ↔ ∃ n rest, fromChars 10 value = .ok (n : Nat) rest ∧
      body = { incoming := n, ended := true } := by
  rw [framing, hget]
  simp only [Option.getD_some, ne_eq, hne, not_false_eq_true, if_true]
  rcases fromChars 10 value with _ | _ | ⟨z, rest⟩
  · simp
  · simp
  · cases z with
    | ofNat n => simp [eq_comm]
    | negSucc n => simp

theorem framing_of_strict {req : HttpRequest} {value : Bytes} {n : Nat}
    (hget : req.getHeader contentLength = some value) (h : StrictLength value n) :
    req.framing = some { incoming := n, ended := true } := by
  obtain ⟨hnumeral, rfl, hlt⟩ := h
  refine (framing_eq_some_iff hget hnumeral.1).mpr ⟨_, [], ?_, rfl⟩
  have hread : fromChars 10 (value ++ []) = _ :=
    fromChars_numeral hnumeral (fun c hc => by cases hc) hlt
  rwa [List.append_nil] at hread

theorem strict_or_lenient {req : HttpRequest} {value : Bytes} {body : HttpBody}
    (hget : req.getHeader contentLength = some value) (hne : value ≠ [])
    (h : req.framing = some body) :
    (∃ n, StrictLength value n ∧ body = { incoming := n, ended := true }) ∨ Lenient value := by
  obtain ⟨n, rest, hread, rfl⟩ := (framing_eq_some_iff hget hne).mp h
  obtain ⟨text, rfl, ⟨hnumeral, hvalue⟩ | ⟨zeros, rfl, hzeros, hvalue⟩, hstops, -, hlt⟩ :=
    fromChars_eq_ok_iff.mp hread
  · have hstrict : StrictLength text n := ⟨hnumeral, by omega, by omega⟩
    by_cases hrest : rest = []
    · rw [hrest, List.append_nil]
      exact .inl ⟨n, hstrict, rfl⟩
    · exact .inr ⟨text, rest, rfl, hstops, .inl ⟨hrest, n, hstrict⟩⟩
  · exact .inr ⟨_, rest, rfl, hstops, .inr ⟨zeros, rfl, hzeros, by omega⟩⟩

theorem framing_of_lenient {req : HttpRequest} {value : Bytes}
    (hget : req.getHeader contentLength = some value) (h : Lenient value) :
    (∃ body, req.framing = some body) ∧ ¬ ∃ n, StrictLength value n := by
  obtain ⟨text, rest, rfl, hstops, hcase⟩ := h
  rcases hcase with ⟨hrest, n, hnumeral, rfl, hlt⟩ | ⟨zeros, rfl, hzeros, hvalue⟩
  · have hread := fromChars_numeral hnumeral hstops hlt
    have hne : text ++ rest ≠ [] := List.append_ne_nil_of_left_ne_nil hnumeral.1 _
    refine ⟨⟨_, (framing_eq_some_iff hget hne).mpr ⟨_, rest, hread, rfl⟩⟩, ?_⟩
    rintro ⟨m, hwhole, -⟩
    obtain ⟨c, cs, rfl⟩ := List.exists_cons_of_ne_nil hrest
    have hdigit := hwhole.2 c (List.mem_append_right _ List.mem_cons_self)
    rw [hstops c rfl] at hdigit
    cases hdigit
  · have hread : fromChars 10 (45 :: zeros ++ rest) = .ok (0 : Nat) rest :=
      fromChars_eq_ok_iff.mpr ⟨45 :: zeros, rfl, .inr ⟨zeros, rfl, hzeros, by rw [hvalue]; rfl⟩,
        hstops, by decide, by decide⟩
    refine ⟨⟨_, (framing_eq_some_iff hget (by simp)).mpr ⟨0, rest, hread, rfl⟩⟩, ?_⟩
    rintro ⟨m, hwhole, -⟩
    exact ne_minus_of_isSome_digit (hwhole.2 45 List.mem_cons_self) rfl

end HttpRequest

namespace HttpServer

variable {E : Type}

/-- A request with a content-length is framed by `framing`; and it is served with the fixed length that
the value denotes, or else ends the loop without a call of an endpoint, exactly where the value is not
lenient. -/
theorem contentLength_strict_iff {c c' : Connection E} {req : HttpRequest} {value : Bytes}
    (h : Receives c req c') (hget : req.getHeader contentLength = some value) :
    (∀ server : HttpServer E, (server.connectionRound ()).run c = match req.framing with
      | none => (.returned (.inr ()), c')
      | some body => (server.handleRequest req body).run c') ∧
    (((∀ body, req.framing = some body →
        ∃ n, StrictLength value n ∧ body = { incoming := n, ended := true }) ∧
      ((¬ ∃ n, StrictLength value n) → ∀ server : HttpServer E,
        server.onConnection.run c = (onSocket Socket.shutdown).run c' ∧
          (server.onConnection.run c).2.calls = c.calls)) ↔ ¬ Lenient value) := by
  have hne := h.valuesNonempty _ _ hget
  refine ⟨fun server => connectionRound_receives server h, ?_⟩
  constructor
  · rintro ⟨hserves, -⟩ hlenient
    obtain ⟨⟨body, hbody⟩, hnot⟩ := HttpRequest.framing_of_lenient hget hlenient
    obtain ⟨n, hstrict, -⟩ := hserves body hbody
    exact hnot ⟨n, hstrict⟩
  · intro hlenient
    refine ⟨fun body hbody =>
      (HttpRequest.strict_or_lenient hget hne hbody).resolve_right hlenient, fun hnot server => ?_⟩
    have hnone : req.framing = none := by
      cases hframing : req.framing with
      | none => rfl
      | some body =>
        obtain ⟨n, hstrict, -⟩ :=
          (HttpRequest.strict_or_lenient hget hne hframing).resolve_right hlenient
        exact absurd ⟨n, hstrict⟩ hnot
    have hrun := onConnection_refuses server h hnone
    refine ⟨hrun, ?_⟩
    rw [hrun]
    exact h.calls_eq

/-- What is sent as a request line, headers and an empty line is received so. -/
theorem exists_receives {line : Bytes} (hlf : lf ∉ line) (hne : line ≠ []) (headers : List Header)
    (hok : (({} : HttpRequest).processReqLine line).1) {c : Connection E} (rest : Bytes)
    (h : c.sock.pending = line ++ [cr, lf] ++ (headers.flatMap Header.wire ++ [cr, lf] ++ rest)) :
    ∃ c', Receives c { (({} : HttpRequest).processReqLine line).2 with
      headers := Header.store headers [] } c' := by
  obtain ⟨s₁, hline, hc₁⟩ := readHttpLine_crlf line _ hlf h
  obtain ⟨s₂, hheaders, hc₂⟩ := readHeaders_run (({} : HttpRequest).processReqLine line).2 headers
    rest (hc₁.rest_eq h)
  rw [HttpRequest.headers_processReqLine] at hheaders
  refine ⟨{ c with sock := s₂ }, _, s₁, s₂, _, hline, ?_, hok, hheaders, rfl, rfl⟩
  simp [HttpLine.hasValue, hne]

def lengthFive : Header :=
  { name := ascii "Content-Length", value := ascii "5", name_ne_nil := by decide,
    value_ne_nil := by decide, name_trimmed := by constructor <;> decide,
    value_trimmed := by constructor <;> decide, colon_not_mem := by decide,
    cr_not_mem := by decide, lf_not_mem := by decide }

def lengthTwelveAbc : Header :=
  { name := ascii "Content-Length", value := ascii "12abc", name_ne_nil := by decide,
    value_ne_nil := by decide, name_trimmed := by constructor <;> decide,
    value_trimmed := by constructor <;> decide, colon_not_mem := by decide,
    cr_not_mem := by decide, lf_not_mem := by decide }

def posting (header : Header) : Bytes :=
  ascii "POST / HTTP/1.1" ++ [cr, lf] ++ ([header].flatMap Header.wire ++ [cr, lf] ++ [])

def delivering (bytes : Bytes) (hne : bytes ≠ []) (hlen : bytes.length ≤ socketBufferSize) :
    Connection Unit :=
  { sock := Socket.new [.data { bytes := bytes, nonempty := hne, length_le := hlen }]
      fun _ => .accepted 0
    calls := [] }

theorem exists_receives_posting (header : Header) (hlen : (posting header).length ≤ socketBufferSize) :
    ∃ c' req, Receives (delivering (posting header) (by simp [posting]) hlen) req c' ∧
      req.headers = [(header.name, header.value)] := by
  obtain ⟨c', hc'⟩ := exists_receives (show lf ∉ ascii "POST / HTTP/1.1" by decide) (by decide)
    [header] (by decide) [] (c := delivering (posting header) (by simp [posting]) hlen)
    (by rw [delivering, Socket.pending_new]; exact List.append_nil _)
  exact ⟨c', _, hc', rfl⟩

theorem contentLength_strict_five : ∃ (c c' : Connection Unit) (req : HttpRequest),
    Receives c req c' ∧
      (((∀ body, req.framing = some body →
          ∃ n, StrictLength (ascii "5") n ∧ body = { incoming := n, ended := true }) ∧
        ((¬ ∃ n, StrictLength (ascii "5") n) → ∀ server : HttpServer Unit,
          server.onConnection.run c = (onSocket Socket.shutdown).run c' ∧
            (server.onConnection.run c).2.calls = c.calls)) ↔ ¬ Lenient (ascii "5")) := by
  obtain ⟨c', req, hreceives, hheaders⟩ := exists_receives_posting lengthFive (by decide)
  refine ⟨_, c', req, hreceives, (contentLength_strict_iff hreceives ?_).2⟩
  rw [HttpRequest.getHeader, hheaders]
  rfl

/-- A client sends `12abc`, and its request is served with twelve bytes. -/
theorem contentLength_takes_twelve : ∃ (c c' : Connection Unit) (req : HttpRequest),
    Receives c req c' ∧ req.getHeader contentLength = some (ascii "12abc") ∧
      ¬ ((∀ body, req.framing = some body →
          ∃ n, StrictLength (ascii "12abc") n ∧ body = { incoming := n, ended := true }) ∧
        ((¬ ∃ n, StrictLength (ascii "12abc") n) → ∀ server : HttpServer Unit,
          server.onConnection.run c = (onSocket Socket.shutdown).run c' ∧
            (server.onConnection.run c).2.calls = c.calls)) ∧
      req.framing = some { incoming := 12, ended := true } := by
  obtain ⟨c', req, hreceives, hheaders⟩ := exists_receives_posting lengthTwelveAbc (by decide)
  have hget : req.getHeader contentLength = some (ascii "12abc") := by
    rw [HttpRequest.getHeader, hheaders]
    rfl
  have hframing : req.framing = some { incoming := 12, ended := true } :=
    (HttpRequest.framing_eq_some_iff hget (by decide)).mpr ⟨12, ascii "abc", by decide, rfl⟩
  refine ⟨_, c', req, hreceives, hget, ?_, hframing⟩
  rintro ⟨hserves, -⟩
  obtain ⟨n, ⟨hnumeral, -⟩, -⟩ := hserves _ hframing
  exact absurd (hnumeral.2 97 (by decide)) (by decide)

end HttpServer

end CppEvent
