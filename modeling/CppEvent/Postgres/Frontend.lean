import CppEvent.Postgres.Backend

/-!
# Messages of the frontend

The stream that a client sends, as the protocol describes it: the messages with their bytes
(`FrontendMessage.wire`), and a reference parser that splits a stream by its length fields and reads
every message to its end (`parseStream`). The answers to an authentication request have no form of
their own, so the parser is told which requests were answered.
-/

namespace CppEvent

/-- What a server asks for. -/
inductive AuthRequest where
  | clearTextPassword
  | sasl
  | saslContinue
  deriving DecidableEq, Repr

inductive FrontendMessage where
  | startup (parameters : List (Bytes × Bytes))
  | password (password : Bytes)
  | saslInitialResponse (mechanism data : Bytes)
  | saslResponse (data : Bytes)
  | query (q : Bytes)
  | parse (statement q : Bytes) (types : List Nat)
  | bind (portal statement : Bytes) (formats : List Nat) (values : List (Option Bytes))
      (resultFormats : List Nat)
  | execute (portal : Bytes) (maxRows : Nat)
  | flush
  | closePortal (portal : Bytes)
  | sync
  deriving DecidableEq, Repr

namespace FrontendMessage

def text (s : Bytes) : Bytes := s ++ [0]

/-- A list behind the number of its elements. -/
def counted {α : Type} (encode : α → Bytes) (as : List α) : Bytes :=
  writeU16Be as.length ++ as.flatMap encode

def kind : FrontendMessage → Byte
  | startup _ => 0
  | password _ | saslInitialResponse _ _ | saslResponse _ => 'p'.toUInt8
  | query _ => 'Q'.toUInt8
  | parse _ _ _ => 'P'.toUInt8
  | bind _ _ _ _ _ => 'B'.toUInt8
  | execute _ _ => 'E'.toUInt8
  | flush => 'H'.toUInt8
  | closePortal _ => 'C'.toUInt8
  | sync => 'S'.toUInt8

/-- What follows the length field. -/
def body : FrontendMessage → Bytes
  | startup ps => writeU32Be (3 * 2 ^ 16) ++ ps.flatMap (fun p => text p.1 ++ text p.2) ++ [0]
  | password s => text s
  | saslInitialResponse mechanism data => text mechanism ++ writeU32Be data.length ++ data
  | saslResponse data => data
  | query q => text q
  | parse statement q types => text statement ++ text q ++ counted writeU32Be types
  | bind portal statement formats values resultFormats =>
      text portal ++ text statement ++ counted writeU16Be formats ++ counted encodeValue values ++
        counted writeU16Be resultFormats
  | execute portal maxRows => text portal ++ writeU32Be maxRows
  | closePortal portal => 'P'.toUInt8 :: text portal
  | flush | sync => []

def wire (m : FrontendMessage) : Bytes :=
  match m with
  | startup _ => writeU32Be (m.body.length + 4) ++ m.body
  | _ => m.kind :: writeU32Be (m.body.length + 4) ++ m.body

/-- Texts have no NUL, and numbers and counts are in their ranges. -/
def WellFormed : FrontendMessage → Prop
  | startup ps => ∀ p ∈ ps, p.1 ≠ [] ∧ 0 ∉ p.1 ∧ 0 ∉ p.2
  | password s => 0 ∉ s
  | saslInitialResponse mechanism _ => 0 ∉ mechanism
  | query q => 0 ∉ q
  | parse statement q types => 0 ∉ statement ∧ 0 ∉ q ∧ types.length < 2 ^ 16 ∧
      ∀ t ∈ types, t < 2 ^ 32
  | bind portal statement formats values resultFormats => 0 ∉ portal ∧ 0 ∉ statement ∧
      (formats.length < 2 ^ 16 ∧ ∀ f ∈ formats, f < 2 ^ 16) ∧ values.length < 2 ^ 16 ∧
      resultFormats.length < 2 ^ 16 ∧ ∀ f ∈ resultFormats, f < 2 ^ 16
  | execute portal maxRows => 0 ∉ portal ∧ maxRows < 2 ^ 32
  | closePortal portal => 0 ∉ portal
  | saslResponse _ | flush | sync => True

/-- The request that the message answers. -/
def request? : FrontendMessage → Option AuthRequest
  | password _ => some .clearTextPassword
  | saslInitialResponse _ _ => some .sasl
  | saslResponse _ => some .saslContinue
  | _ => none

def isStartup : FrontendMessage → Bool
  | startup _ => true
  | _ => false

end FrontendMessage

/-! ## The reference parser -/

namespace Frontend

open FrontendMessage

def takeBytes (n : Nat) (p : Bytes) : Option (Bytes × Bytes) :=
  if n ≤ p.length then some (p.take n, p.drop n) else none

def takeMany {α : Type} (take : Bytes → Option (α × Bytes)) :
    Nat → Bytes → Option (List α × Bytes)
  | 0, p => some ([], p)
  | n + 1, p => do
      let (a, p) ← take p
      let (as, p) ← takeMany take n p
      some (a :: as, p)

def takeCounted {α : Type} (take : Bytes → Option (α × Bytes)) (p : Bytes) :
    Option (List α × Bytes) := do
  let (n, p) ← takeU16 p
  takeMany take n p

/-- A value of a parameter; the length -1 stands for null. -/
def takeValue (p : Bytes) : Option (Option Bytes × Bytes) := do
  let (n, p) ← takeU32 p
  if n = 2 ^ 32 - 1 then some (none, p)
  else do
    let (value, p) ← takeBytes n p
    some (some value, p)

/-- The parameters of a startup message, up to an empty name; at most `n` of them. -/
def takeParameters : Nat → Bytes → Option (List (Bytes × Bytes) × Bytes)
  | 0, _ => none
  | n + 1, p => do
      let (name, p) ← takeText p
      if name = [] then some ([], p)
      else do
        let (value, p) ← takeText p
        let (ps, p) ← takeParameters n p
        some ((name, value) :: ps, p)

/-- Nothing may be left of a body. -/
def ended (m : FrontendMessage) (p : Bytes) : Option FrontendMessage :=
  if p = [] then some m else none

def parseStartup (p : Bytes) : Option FrontendMessage := do
  let (version, p) ← takeU32 p
  if version = 3 * 2 ^ 16 then do
    let (ps, p) ← takeParameters (p.length + 1) p
    ended (.startup ps) p
  else none

def parseAnswer : AuthRequest → Bytes → Option FrontendMessage
  | .clearTextPassword, p => do
      let (s, p) ← takeText p
      ended (.password s) p
  | .sasl, p => do
      let (mechanism, p) ← takeText p
      let (n, p) ← takeU32 p
      let (data, p) ← takeBytes n p
      ended (.saslInitialResponse mechanism data) p
  | .saslContinue, p => some (.saslResponse p)

def parseQuery (p : Bytes) : Option FrontendMessage := do
  let (q, p) ← takeText p
  ended (.query q) p

def parseParse (p : Bytes) : Option FrontendMessage := do
  let (statement, p) ← takeText p
  let (q, p) ← takeText p
  let (types, p) ← takeCounted takeU32 p
  ended (.parse statement q types) p

def parseBind (p : Bytes) : Option FrontendMessage := do
  let (portal, p) ← takeText p
  let (statement, p) ← takeText p
  let (formats, p) ← takeCounted takeU16 p
  let (values, p) ← takeCounted takeValue p
  let (resultFormats, p) ← takeCounted takeU16 p
  ended (.bind portal statement formats values resultFormats) p

def parseExecute (p : Bytes) : Option FrontendMessage := do
  let (portal, p) ← takeText p
  let (maxRows, p) ← takeU32 p
  ended (.execute portal maxRows) p

def parseClose : Bytes → Option FrontendMessage
  | [] => none
  | c :: p =>
      if c = 'P'.toUInt8 then do
        let (portal, p) ← takeText p
        ended (.closePortal portal) p
      else none

/-- A message that is no answer, by its type byte. -/
def parseBody (kind : Byte) (p : Bytes) : Option FrontendMessage :=
  if kind = 'Q'.toUInt8 then parseQuery p
  else if kind = 'P'.toUInt8 then parseParse p
  else if kind = 'B'.toUInt8 then parseBind p
  else if kind = 'E'.toUInt8 then parseExecute p
  else if kind = 'H'.toUInt8 then ended .flush p
  else if kind = 'C'.toUInt8 then parseClose p
  else if kind = 'S'.toUInt8 then ended .sync p
  else none

/-- A message by its type byte, and the requests that are then still to be answered. -/
def parseMessage (requests : List AuthRequest) (kind : Byte) (p : Bytes) :
    Option (FrontendMessage × List AuthRequest) :=
  if kind = 'p'.toUInt8 then
    match requests with
    | [] => none
    | request :: requests => (parseAnswer request p).map fun m => (m, requests)
  else (parseBody kind p).map fun m => (m, requests)

/-- The body behind a length field that counts itself. -/
def takeFramed (p : Bytes) : Option (Bytes × Bytes) := do
  let (n, p) ← takeU32 p
  if 4 ≤ n then takeBytes (n - 4) p else none

/-- A stream of messages with type bytes; at most `n` of them. -/
def parseMessages : Nat → List AuthRequest → Bytes → Option (List FrontendMessage)
  | _, _, [] => some []
  | 0, _, _ :: _ => none
  | n + 1, requests, kind :: p => do
      let (body, p) ← takeFramed p
      let (m, requests) ← parseMessage requests kind body
      let ms ← parseMessages n requests p
      some (m :: ms)

def parseStream (requests : List AuthRequest) (p : Bytes) : Option (List FrontendMessage) := do
  let (body, p) ← takeFramed p
  let m ← parseStartup body
  let ms ← parseMessages p.length requests p
  some (m :: ms)

/-! ### What is written is parsed -/

theorem takeBytes_append (as p : Bytes) : takeBytes as.length (as ++ p) = some (as, p) := by
  rw [takeBytes, if_pos (by rw [List.length_append]; omega), List.take_left, List.drop_left]

theorem takeText_text {s : Bytes} (h : 0 ∉ s) (p : Bytes) : takeText (text s ++ p) = some (s, p) :=
  takeText_append h p

theorem takeU32_of_lt {n : Nat} (h : n < 2 ^ 32) (p : Bytes) :
    takeU32 (writeU32Be n ++ p) = some (n, p) := by
  rw [takeU32_writeU32Be, Nat.mod_eq_of_lt h]

section Lists

variable {α : Type} {take : Bytes → Option (α × Bytes)} {encode : α → Bytes} {as : List α}

theorem takeMany_flatMap (h : ∀ a ∈ as, ∀ p, take (encode a ++ p) = some (a, p)) (p : Bytes) :
    takeMany take as.length (as.flatMap encode ++ p) = some (as, p) := by
  induction as with
  | nil => rfl
  | cons a as ih =>
    obtain ⟨ha, has⟩ := List.forall_mem_cons.mp h
    rw [List.flatMap_cons, List.append_assoc, List.length_cons, takeMany, ha]
    simp only [Option.bind_eq_bind, Option.bind_some, ih has]

theorem takeCounted_counted (hlength : as.length < 2 ^ 16)
    (h : ∀ a ∈ as, ∀ p, take (encode a ++ p) = some (a, p)) (p : Bytes) :
    takeCounted take (counted encode as ++ p) = some (as, p) := by
  rw [takeCounted, counted, List.append_assoc, takeU16_writeU16Be hlength]
  exact takeMany_flatMap h p

end Lists

theorem takeValue_encodeValue {value : Option Bytes} (h : ∀ text ∈ value, text.length < 2 ^ 32 - 1)
    (p : Bytes) : takeValue (encodeValue value ++ p) = some (value, p) := by
  cases value with
  | none =>
    rw [takeValue, encodeValue, takeU32_of_lt (by omega)]
    simp only [Option.bind_eq_bind, Option.bind_some, if_pos]
  | some text =>
    have hlt := h text rfl
    rw [takeValue, encodeValue, List.append_assoc, takeU32_of_lt (by omega)]
    simp only [Option.bind_eq_bind, Option.bind_some, if_neg (by omega : ¬ text.length = 2 ^ 32 - 1),
      takeBytes_append]

theorem takeParameters_flatMap {ps : List (Bytes × Bytes)}
    (h : ∀ p ∈ ps, p.1 ≠ [] ∧ 0 ∉ p.1 ∧ 0 ∉ p.2) {n : Nat} (hn : ps.length < n) (p : Bytes) :
    takeParameters n (ps.flatMap (fun p => text p.1 ++ text p.2) ++ [0] ++ p) = some (ps, p) := by
  induction ps generalizing n with
  | nil =>
    obtain ⟨n, rfl⟩ := Nat.exists_eq_succ_of_ne_zero (Nat.ne_zero_of_lt hn)
    rfl
  | cons q ps ih =>
    obtain ⟨n, rfl⟩ := Nat.exists_eq_succ_of_ne_zero (Nat.ne_zero_of_lt hn)
    obtain ⟨⟨hne, hname, hvalue⟩, hps⟩ := List.forall_mem_cons.mp h
    rw [List.length_cons] at hn
    rw [List.flatMap_cons, takeParameters]
    simp only [List.append_assoc, takeText_text hname, takeText_text hvalue, Option.bind_eq_bind,
      Option.bind_some, if_neg hne]
    rw [← List.append_assoc, ih hps (by omega)]
    rfl

theorem length_le_parameters (ps : List (Bytes × Bytes)) :
    ps.length ≤ (ps.flatMap fun p => text p.1 ++ text p.2).length := by
  induction ps with
  | nil => exact Nat.le_refl 0
  | cons p ps ih =>
    have hpos : 0 < (text p.1).length := by simp [text]
    simp only [List.flatMap_cons, List.length_append, List.length_cons]
    omega

theorem takeText_end {s : Bytes} (h : 0 ∉ s) : takeText (text s) = some (s, []) := by
  rw [← List.append_nil (text s), takeText_text h]

theorem parseStartup_body {ps : List (Bytes × Bytes)} (h : (startup ps).WellFormed) :
    parseStartup (startup ps).body = some (startup ps) := by
  have hlen := length_le_parameters ps
  rw [parseStartup, body, List.append_assoc, takeU32_of_lt (by omega)]
  simp only [Option.bind_eq_bind, Option.bind_some, if_pos]
  rw [← List.append_nil (_ ++ [0]), takeParameters_flatMap h]
  · rfl
  · simp only [List.append_nil, List.length_append, List.length_singleton]
    omega

theorem parseAnswer_body {m : FrontendMessage} (h : m.WellFormed) {request : AuthRequest}
    (hrequest : m.request? = some request) (hlength : m.body.length < 2 ^ 32) :
    parseAnswer request m.body = some m := by
  cases m with
  | password s =>
    obtain rfl := Option.some.inj hrequest
    rw [body, parseAnswer, takeText_end h]
    rfl
  | saslInitialResponse mechanism data =>
    obtain rfl := Option.some.inj hrequest
    simp only [body, List.length_append] at hlength
    rw [body, parseAnswer, List.append_assoc, takeText_text h]
    simp only [Option.bind_eq_bind, Option.bind_some]
    rw [takeU32_of_lt (by omega)]
    have hdata := takeBytes_append data []
    rw [List.append_nil] at hdata
    simp only [Option.bind_some, hdata]
    rfl
  | saslResponse data =>
    obtain rfl := Option.some.inj hrequest
    rfl
  | _ => cases hrequest

theorem parseBind_body {portal statement : Bytes} {formats : List Nat}
    {values : List (Option Bytes)} {resultFormats : List Nat}
    (h : (bind portal statement formats values resultFormats).WellFormed)
    (hlength : (bind portal statement formats values resultFormats).body.length < 2 ^ 32 - 1) :
    parseBind (bind portal statement formats values resultFormats).body =
      some (bind portal statement formats values resultFormats) := by
  obtain ⟨hportal, hstatement, ⟨hformats, hformat⟩, hvalues, hresults, hresult⟩ := h
  have hvalue : ∀ value ∈ values, ∀ text ∈ value, text.length < 2 ^ 32 - 1 := by
    rintro _ hmem text rfl
    have := length_value_le hmem
    simp only [body, counted, List.length_append] at hlength
    omega
  have htake : ∀ n < 2 ^ 16, ∀ p, takeU16 (writeU16Be n ++ p) = some (n, p) :=
    fun n hn p => takeU16_writeU16Be hn p
  rw [body, parseBind]
  simp only [List.append_assoc, takeText_text hportal, takeText_text hstatement,
    Option.bind_eq_bind, Option.bind_some,
    takeCounted_counted hformats fun f hf => htake f (hformat f hf),
    takeCounted_counted hvalues fun value hmem => takeValue_encodeValue (hvalue value hmem)]
  rw [← List.append_nil (counted _ _),
    takeCounted_counted hresults fun f hf => htake f (hresult f hf)]
  rfl

theorem parseParse_body {statement q : Bytes} {types : List Nat}
    (h : (parse statement q types).WellFormed) :
    parseParse (parse statement q types).body = some (parse statement q types) := by
  obtain ⟨hstatement, hq, htypes, htype⟩ := h
  rw [body, parseParse]
  simp only [List.append_assoc, takeText_text hstatement, takeText_text hq, Option.bind_eq_bind,
    Option.bind_some]
  rw [← List.append_nil (counted _ _),
    takeCounted_counted htypes fun t ht p => takeU32_of_lt (htype t ht) p]
  rfl

theorem parseExecute_body {portal : Bytes} {maxRows : Nat} (h : (execute portal maxRows).WellFormed) :
    parseExecute (execute portal maxRows).body = some (execute portal maxRows) := by
  obtain ⟨hportal, hrows⟩ := h
  rw [body, parseExecute, takeText_text hportal]
  simp only [Option.bind_eq_bind, Option.bind_some]
  rw [← List.append_nil (writeU32Be _), takeU32_of_lt hrows]
  rfl

/-- A message is parsed from its type byte and its body, and is an answer to the first request if it
is one at all. -/
theorem parseMessage_body {m : FrontendMessage} (h : m.WellFormed) (hstartup : m.isStartup = false)
    (hlength : m.body.length < 2 ^ 32 - 1) (requests : List AuthRequest) :
    parseMessage (m.request?.toList ++ requests) m.kind m.body = some (m, requests) := by
  cases m with
  | startup ps => cases hstartup
  | password s =>
    have := parseAnswer_body h rfl (by omega)
    exact congrArg (Option.map fun m => (m, requests)) this
  | saslInitialResponse mechanism data =>
    have := parseAnswer_body h rfl (by omega)
    exact congrArg (Option.map fun m => (m, requests)) this
  | saslResponse data => rfl
  | query q =>
    have : parseQuery (query q).body = some (query q) := by
      rw [body, parseQuery, takeText_end h]
      rfl
    exact congrArg (Option.map fun m => (m, requests)) this
  | parse statement q types =>
    exact congrArg (Option.map fun m => (m, requests)) (parseParse_body h)
  | bind portal statement formats values resultFormats =>
    exact congrArg (Option.map fun m => (m, requests)) (parseBind_body h hlength)
  | execute portal maxRows =>
    exact congrArg (Option.map fun m => (m, requests)) (parseExecute_body h)
  | closePortal portal =>
    have : parseClose (closePortal portal).body = some (closePortal portal) := by
      rw [body, parseClose, if_pos rfl, takeText_end h]
      rfl
    exact congrArg (Option.map fun m => (m, requests)) this
  | flush => rfl
  | sync => rfl

theorem takeFramed_append {body : Bytes} (h : body.length + 4 < 2 ^ 32) (p : Bytes) :
    takeFramed (writeU32Be (body.length + 4) ++ body ++ p) = some (body, p) := by
  rw [takeFramed, List.append_assoc, takeU32_of_lt h]
  simp only [Option.bind_eq_bind, Option.bind_some, if_pos (by omega : 4 ≤ body.length + 4),
    Nat.add_sub_cancel, takeBytes_append]

/-- Messages one behind the other are split into just these. -/
theorem parseMessages_wire {ms : List FrontendMessage}
    (h : ∀ m ∈ ms, m.WellFormed ∧ m.isStartup = false ∧ m.body.length + 4 < 2 ^ 32) {n : Nat}
    (hn : ms.length ≤ n) :
    parseMessages n (ms.filterMap request?) (ms.flatMap wire) = some ms := by
  induction ms generalizing n with
  | nil => cases n <;> rfl
  | cons m ms ih =>
    rw [List.length_cons] at hn
    obtain ⟨n, rfl⟩ := Nat.exists_eq_succ_of_ne_zero (Nat.ne_zero_of_lt (by omega : 0 < n))
    obtain ⟨⟨hm, hstartup, hlength⟩, hms⟩ := List.forall_mem_cons.mp h
    have hwire : m.wire = m.kind :: (writeU32Be (m.body.length + 4) ++ m.body) := by
      cases m with
      | startup ps => cases hstartup
      | _ => rfl
    have hrequests : (m :: ms).filterMap request? = m.request?.toList ++ ms.filterMap request? := by
      rw [List.filterMap_cons]
      cases m.request? <;> rfl
    rw [List.flatMap_cons, hwire, hrequests, List.cons_append, parseMessages,
      takeFramed_append hlength]
    have htail := ih hms (n := n) (by omega)
    simp only [Option.bind_eq_bind, Option.bind_some, parseMessage_body hm hstartup (by omega), htail]

/-- The message at the front of a stream is parsed first; it takes its request, if it answers one. -/
theorem parseMessages_cons {m : FrontendMessage} (hm : m.WellFormed) (hstartup : m.isStartup = false)
    (hlength : m.body.length + 4 < 2 ^ 32) {requests : List AuthRequest} {n : Nat} {p : Bytes}
    {sent : List FrontendMessage}
    (hparse : parseMessages n (m.request?.toList ++ requests) (m.wire ++ p) = some sent) :
    ∃ n' sent', sent = m :: sent' ∧ parseMessages n' requests p = some sent' := by
  have hwire : m.wire = m.kind :: (writeU32Be (m.body.length + 4) ++ m.body) := by
    cases m with
    | startup ps => cases hstartup
    | _ => rfl
  rw [hwire, List.cons_append] at hparse
  cases n with
  | zero => cases hparse
  | succ n =>
    rw [parseMessages, takeFramed_append hlength] at hparse
    simp only [Option.bind_eq_bind, Option.bind_some, parseMessage_body hm hstartup (by omega),
      Option.bind_eq_some_iff, Option.some.injEq] at hparse
    obtain ⟨sent', hparse', rfl⟩ := hparse
    exact ⟨n, sent', rfl, hparse'⟩

theorem parseMessages_append {ms : List FrontendMessage}
    (h : ∀ m ∈ ms, (m.WellFormed ∧ m.isStartup = false ∧ m.request? = none) ∧
      m.body.length + 4 < 2 ^ 32) {n : Nat} {p : Bytes} {sent : List FrontendMessage}
    (hparse : parseMessages n [] (ms.flatMap wire ++ p) = some sent) :
    ∃ n' sent', sent = ms ++ sent' ∧ parseMessages n' [] p = some sent' := by
  induction ms generalizing n sent with
  | nil => exact ⟨n, sent, rfl, hparse⟩
  | cons m ms ih =>
    obtain ⟨⟨⟨hm, hstartup, hrequest⟩, hlength⟩, hms⟩ := List.forall_mem_cons.mp h
    have hnone : m.request?.toList ++ [] = [] := by rw [hrequest]; rfl
    rw [List.flatMap_cons, List.append_assoc, ← hnone] at hparse
    obtain ⟨n₁, sent₁, rfl, hparse₁⟩ := parseMessages_cons hm hstartup hlength hparse
    obtain ⟨n', sent', rfl, hparse'⟩ := ih hms hparse₁
    exact ⟨n', sent', rfl, hparse'⟩

theorem length_le_wire (ms : List FrontendMessage) : ms.length ≤ (ms.flatMap wire).length := by
  induction ms with
  | nil => exact Nat.le_refl 0
  | cons m ms ih =>
    have hpos : 4 ≤ m.wire.length := by
      cases m <;> simp only [wire, List.length_append, List.length_cons, length_writeU32Be] <;> omega
    rw [List.flatMap_cons, List.length_append, List.length_cons]
    omega

theorem parseStream_wire {ps : List (Bytes × Bytes)} {ms : List FrontendMessage}
    (hstartup : (startup ps).WellFormed ∧ (startup ps).body.length + 4 < 2 ^ 32)
    (h : ∀ m ∈ ms, m.WellFormed ∧ m.isStartup = false ∧ m.body.length + 4 < 2 ^ 32) :
    parseStream (ms.filterMap request?) ((startup ps :: ms).flatMap wire) =
      some (startup ps :: ms) := by
  rw [List.flatMap_cons, wire, parseStream, takeFramed_append hstartup.2]
  simp only [Option.bind_eq_bind, Option.bind_some, parseStartup_body hstartup.1,
    parseMessages_wire h (length_le_wire ms)]

theorem parseStream_cons {ps : List (Bytes × Bytes)} (hstartup : (startup ps).WellFormed)
    (hlength : (startup ps).body.length + 4 < 2 ^ 32) {requests : List AuthRequest} {p : Bytes}
    {sent : List FrontendMessage}
    (hparse : parseStream requests ((startup ps).wire ++ p) = some sent) :
    ∃ n sent', sent = startup ps :: sent' ∧ parseMessages n requests p = some sent' := by
  rw [wire, parseStream, takeFramed_append hlength] at hparse
  simp only [Option.bind_eq_bind, Option.bind_some, parseStartup_body hstartup,
    Option.bind_eq_some_iff, Option.some.injEq] at hparse
  obtain ⟨sent', hparse', rfl⟩ := hparse
  exact ⟨p.length, sent', rfl, hparse'⟩

end Frontend

end CppEvent
