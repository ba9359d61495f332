import CppEvent.Postgres.Agreement
import CppEvent.Postgres.Conversation
import CppEvent.Postgres.Mechanisms

/-!
# A login

`init` against a server that lets its users in without a password, by the password itself or by SCRAM
(`LoginServer`). What is to come of it depends on nothing but what the server has stored of the password
(`verdict`). On the side of the client there is a lemma for every message that such a server sends: what
a round of `init` takes of it, and what it answers.
-/

namespace CppEvent

open Coroutine FrontendMessage

/-! ## Messages -/

/-- A message of the backend from the start of a connection on. -/
inductive ServerMessage where
  | authenticationOk
  | authenticationCleartextPassword
  | authenticationSasl (mechanisms : List Bytes)
  | authenticationSaslContinue (data : Bytes)
  | authenticationSaslFinal (data : Bytes)
  | parameterStatus (name value : Bytes)
  | backendKeyData (key : Bytes)
  | reply (m : BackendMessage)
  deriving DecidableEq, Repr

namespace ServerMessage

def kind : ServerMessage → Byte
  | parameterStatus _ _ => 'S'.toUInt8
  | backendKeyData _ => 'K'.toUInt8
  | reply m => m.kind
  | _ => 'R'.toUInt8

def payload : ServerMessage → Bytes
  | authenticationOk => writeU32Be 0
  | authenticationCleartextPassword => writeU32Be 3
  | authenticationSasl mechanisms => writeU32Be 10 ++ Handshake.mechanismList mechanisms
  | authenticationSaslContinue data => writeU32Be 11 ++ data
  | authenticationSaslFinal data => writeU32Be 12 ++ data
  | parameterStatus name value => text name ++ text value
  | backendKeyData key => key
  | reply m => m.payload

/-- The length field is in its range, and so are the parts of an answer to a query. -/
def WellFormed : ServerMessage → Prop
  | reply m => m.WellFormed
  | m => m.payload.length + 4 < 2 ^ 31

def type : ServerMessage → ResponseType
  | parameterStatus _ _ => .parameterStatus
  | backendKeyData _ => .backendKeyData
  | reply m => m.type
  | _ => .authentication

theorem ofByte_kind (m : ServerMessage) : ResponseType.ofByte m.kind = m.type := by
  cases m with
  | reply m => exact m.ofByte_kind
  | _ => rfl

theorem WellFormed.length_lt {m : ServerMessage} (h : m.WellFormed) :
    m.payload.length < 2 ^ 32 - 4 := by
  have hlt : m.payload.length + 4 < 2 ^ 31 := by
    cases m with
    | reply m => exact h.1
    | _ => exact h
  omega

theorem WellFormed.of_length {m : ServerMessage} (hm : ∀ b, m ≠ .reply b)
    (h : m.payload.length + 4 < 2 ^ 31) : m.WellFormed := by
  cases m with
  | reply b => exact absurd rfl (hm b)
  | _ => exact h

end ServerMessage

/-- A message of the server that is well formed. -/
structure ServerReply where
  message : ServerMessage
  wellFormed : message.WellFormed

namespace ServerReply

def frame (r : ServerReply) : Frame :=
  .message r.message.kind r.message.payload r.wellFormed.length_lt

@[simp] theorem type_frame (r : ServerReply) : r.frame.type = r.message.type := r.message.ofByte_kind

theorem size_frame (r : ServerReply) : r.frame.size = r.message.payload.length :=
  r.frame.size_eq (Nat.le_add_left 4 _)

def ofReply (r : Reply) : ServerReply := ⟨.reply r.message, r.wellFormed⟩

/-- These messages, each of them behind any number of notices. -/
abbrev Carry : List ServerReply → List ServerMessage → Prop :=
  List.Carry message fun m => m.type = .noticeResponse

theorem exists_reply {r : ServerReply} (h : ∃ m, r.message = .reply m) :
    ∃ r', r = ofReply r' := by
  obtain ⟨m, hm⟩ := h
  obtain ⟨message, hwf⟩ := r
  obtain rfl : message = .reply m := hm
  exact ⟨⟨m, hwf⟩, rfl⟩

theorem exists_reply_of_notice {n : ServerReply} (h : n.message.type = .noticeResponse) :
    ∃ m, n.message = .reply m := by
  cases hn : n.message with
  | reply m => exact ⟨m, rfl⟩
  | _ => simp [hn, ServerMessage.type] at h

theorem Carry.replies {rs : List ServerReply} {ms : List BackendMessage}
    (h : Carry rs (ms.map .reply)) : ∃ rs', rs = rs'.map ofReply ∧ Reply.Carry rs' ms := by
  generalize hall : ms.map ServerMessage.reply = all at h
  induction h generalizing ms with
  | nil =>
    obtain rfl := List.map_eq_nil_iff.mp hall
    exact ⟨[], rfl, .nil⟩
  | @cons r rs m all hr _ ih =>
    obtain ⟨m, ms, rfl, rfl, hms⟩ := List.map_eq_cons_iff.mp hall
    obtain ⟨r, rfl⟩ := exists_reply ⟨m, hr⟩
    obtain ⟨rs', rfl, hrs'⟩ := ih hms
    exact ⟨r :: rs', rfl, .cons (ServerMessage.reply.inj hr) hrs'⟩
  | @filler n rs m all hn _ ih =>
    obtain ⟨m, ms, rfl, rfl, hms⟩ := List.map_eq_cons_iff.mp hall
    obtain ⟨n, rfl⟩ := exists_reply (exists_reply_of_notice hn)
    obtain ⟨rs', rfl, hrs'⟩ := ih hall
    exact ⟨n :: rs', rfl, .filler hn hrs'⟩

end ServerReply

/-! ## The server -/

namespace ScramServer

/-- The nonce in the client's first message: the attribute behind that of the user. -/
def clientNonce (clientFirst : Bytes) : Bytes :=
  ((clientFirstBare clientFirst).dropWhile (· ≠ ','.toUInt8)).drop 3

end ScramServer

/-- What a server keeps of a password, and what it is going to send in an exchange: the mechanisms and
its part of the nonce. -/
structure ScramVerifier where
  mechanisms : List Bytes
  extension : Bytes
  salt : Bytes
  iterations : Nat
  storedKey : KeyBuffer
  serverKey : KeyBuffer
  offered : Handshake.scramSha256 ∈ mechanisms
  no_comma : ','.toUInt8 ∉ extension
  length_lt : extension.length < 2 ^ 31
  iterations_lt : iterations < 2 ^ 63

namespace ScramVerifier

variable (v : ScramVerifier)

def firstMsg (nonce : Bytes) : Bytes :=
  ScramServer.firstMsg (nonce ++ v.extension) v.salt v.iterations

/-- What the client's final message has to say before the proof. -/
def covered (nonce : Bytes) : Bytes := ascii "c=biws,r=" ++ (nonce ++ v.extension)

end ScramVerifier

/-- How a user is let in. -/
inductive LoginMethod where
  | trust
  | clearTextPassword (expected : Bytes)
  | scram (v : ScramVerifier)

/-- A server with one client: its primitives, the methods of its users, what it says to one that it has
let in and to one that it refuses, and how it goes on. -/
structure LoginServer (S : Type) where
  hmac : KeyBuffer → Bytes → KeyBuffer
  sha256 : KeyBuffer → KeyBuffer
  method : Bytes → Option LoginMethod
  settings : List (Bytes × Bytes)
  key : Bytes
  status : Byte
  refusal : Bytes
  first : S
  serve : Responder BackendMessage S

/-- How far a login is. -/
inductive LoginPhase (S : Type) where
  | startup
  | password (expected : Bytes)
  | mechanism (v : ScramVerifier)
  | proof (v : ScramVerifier) (clientFirst : Bytes)
  | serving (s : S)
  | closed

namespace LoginServer

variable {S : Type} (server : LoginServer S)

/-- What a user gets who is let in. -/
def welcome : List ServerMessage :=
  .authenticationOk :: (server.settings.map fun p => .parameterStatus p.1 p.2) ++
    [.backendKeyData server.key, .reply (.readyForQuery server.status)]

def refuse : List ServerMessage × LoginPhase S :=
  ([.reply (.errorResponse server.refusal)], .closed)

/-- The replies to a message. A refused client is not heard any more. -/
def step (phase : LoginPhase S) (m : FrontendMessage) : List ServerMessage × LoginPhase S :=
  match phase, m with
  | .startup, .startup parameters =>
      match (parameters.lookup (ascii "user")).bind server.method with
      | none => server.refuse
      | some .trust => (server.welcome, .serving server.first)
      | some (.clearTextPassword expected) => ([.authenticationCleartextPassword], .password expected)
      | some (.scram v) => ([.authenticationSasl v.mechanisms], .mechanism v)
  | .password expected, .password answer =>
      if answer = expected then (server.welcome, .serving server.first) else server.refuse
  | .mechanism v, .saslInitialResponse mechanism clientFirst =>
      if mechanism = Handshake.scramSha256 ∧ ascii "n,,n=" <+: clientFirst then
        ([.authenticationSaslContinue (v.firstMsg (ScramServer.clientNonce clientFirst))],
          .proof v clientFirst)
      else server.refuse
  | .proof v clientFirst, .saslResponse clientFinal =>
      let nonce := ScramServer.clientNonce clientFirst
      let serverFirst := v.firstMsg nonce
      if (ScramServer.splitFinal clientFinal).1 = v.covered nonce ∧ ScramServer.accepts server.hmac
          server.sha256 v.storedKey clientFirst serverFirst clientFinal = true then
        (.authenticationSaslFinal
            (ScramServer.finalMsg server.hmac v.serverKey clientFirst serverFirst clientFinal) ::
          server.welcome, .serving server.first)
      else server.refuse
  | .serving s, m => ((server.serve s m).1.map .reply, .serving (server.serve s m).2)
  | .closed, _ => ([], .closed)
  | _, _ => server.refuse

/-- The answers that a method asks for. -/
def requests : Option LoginMethod → List AuthRequest
  | some (.clearTextPassword _) => [.clearTextPassword]
  | some (.scram _) => [.sasl, .saslContinue]
  | _ => []

theorem replies_serving (s : S) (ms : List FrontendMessage) :
    Responder.replies server.step (.serving s) ms = (server.serve.replies s ms).map .reply ∧
      Responder.after server.step (.serving s) ms = .serving (server.serve.after s ms) := by
  induction ms generalizing s with
  | nil => exact ⟨rfl, rfl⟩
  | cons m ms ih =>
    obtain ⟨hreplies, hafter⟩ := ih (server.serve s m).2
    refine ⟨?_, hafter⟩
    rw [Responder.replies, Responder.replies, List.map_append, ← hreplies]
    rfl

theorem replies_closed (ms : List FrontendMessage) :
    Responder.replies server.step .closed ms = [] ∧
      Responder.after server.step .closed ms = .closed := by
  induction ms with
  | nil => exact ⟨rfl, rfl⟩
  | cons m ms ih => exact ih

/-! ### What comes of a login -/

inductive Verdict where
  | admitted
  | refused
  /-- The server lets the client in, but has not proved that it knows the password. -/
  | unproven
  deriving DecidableEq, Repr

namespace Verdict

def outcome : Verdict → Outcome Exn Unit
  | admitted => .returned ()
  | refused => .threw (.runtimeError "Postgres ErrorResponse")
  | unproven => .threw (.runtimeError "SASL Auth unexpected final msg")

def phase : Verdict → S → LoginPhase S
  | refused, _ => .closed
  | _, first => .serving first

end Verdict

/-- What both sides sign, `AuthMessage`. -/
def authMessage (v : ScramVerifier) (user nonce : Bytes) : Bytes :=
  Scram.firstMsgBare user nonce ++ ascii "," ++ v.firstMsg nonce ++ ascii "," ++ v.covered nonce

/-- The client's proof, `ClientKey XOR ClientSignature`, of a salted password. -/
def proof (salted : KeyBuffer) (text : Bytes) : KeyBuffer :=
  let clientKey := server.hmac salted (ascii "Client Key")
  Vector.zipWith (· ^^^ ·) clientKey (server.hmac (server.sha256 clientKey) text)

variable (pbkdf2 : Bytes → Bytes → Nat → KeyBuffer)

/-- The verdict on a client with this configuration and these random bytes. -/
def verdict (config : PgConfig) (bytes : Vector Byte 24) : Verdict :=
  match server.method config.user with
  | none => .refused
  | some .trust => .admitted
  | some (.clearTextPassword expected) => if config.password = expected then .admitted else .refused
  | some (.scram v) =>
      let salted := pbkdf2 config.password v.salt v.iterations
      let text := authMessage v config.user (base64Encode bytes.toList)
      let key := Vector.zipWith (· ^^^ ·) (server.proof salted text) (server.hmac v.storedKey text)
      if server.sha256 key ≠ v.storedKey then .refused
      else if server.hmac v.serverKey text = server.hmac (server.hmac salted (ascii "Server Key")) text
        then .admitted
      else .unproven

/-- The password is that of which the server keeps something. -/
def Knows (config : PgConfig) : Prop :=
  match server.method config.user with
  | none => False
  | some .trust => True
  | some (.clearTextPassword expected) => config.password = expected
  | some (.scram v) =>
      let salted := pbkdf2 config.password v.salt v.iterations
      v.storedKey = server.sha256 (server.hmac salted (ascii "Client Key")) ∧
        v.serverKey = server.hmac salted (ascii "Server Key")

theorem verdict_of_knows {config : PgConfig} (h : server.Knows pbkdf2 config)
    (bytes : Vector Byte 24) : server.verdict pbkdf2 config bytes = .admitted := by
  rw [Knows] at h
  rw [verdict]
  cases hmethod : server.method config.user with
  | none => simp [hmethod] at h
  | some method =>
    rw [hmethod] at h
    cases method with
    | trust => rfl
    | clearTextPassword expected => exact if_pos h
    | scram v =>
      obtain ⟨hstored, hserver⟩ := h
      dsimp only
      rw [proof, ← hstored, zipWith_xor_cancel, if_neg (not_not.mpr hstored.symm),
        if_pos (by rw [hserver])]

end LoginServer

/-! ### The exchange from the side of the server -/

namespace ScramServer

/-- The server finds the nonce behind a name without a comma. -/
theorem clientNonce_first {user : Bytes} (huser : ','.toUInt8 ∉ user) (nonce : Bytes) :
    clientNonce (ascii "n,," ++ Scram.firstMsgBare user nonce) = nonce := by
  have hbare : clientFirstBare (ascii "n,," ++ Scram.firstMsgBare user nonce) =
      (ascii "n=" ++ user) ++ (ascii ",r=" ++ nonce) := by
    rw [clientFirstBare, Scram.firstMsgBare, List.append_assoc (ascii "n=" ++ user)]
    rfl
  have hall : ∀ c ∈ ascii "n=" ++ user, decide (c ≠ ','.toUInt8) = true := by
    intro c hc
    rcases List.mem_append.mp hc with hc | hc
    · have hname : ∀ c ∈ ascii "n=", c ≠ ','.toUInt8 := by decide +kernel
      exact decide_eq_true (hname c hc)
    · exact decide_eq_true fun hcomma => huser (hcomma ▸ hc)
  rw [clientNonce, hbare, List.dropWhile_append_of_pos hall]
  rfl

variable (hmac : KeyBuffer → Bytes → KeyBuffer) (sha256 : KeyBuffer → KeyBuffer)

/-- Whether it accepts the client depends on the proof and the text that both sides sign. -/
theorem accepts_iff (storedKey : KeyBuffer) (clientFirst serverFirst covered : Bytes)
    (proof : KeyBuffer) : accepts hmac sha256 storedKey clientFirst serverFirst
        (covered ++ ascii ",p=" ++ base64Encode proof.toList) = true ↔
      sha256 (Vector.zipWith (· ^^^ ·) proof (hmac storedKey
        (clientFirstBare clientFirst ++ ascii "," ++ serverFirst ++ ascii "," ++ covered))) =
          storedKey := by
  have hdecode : base64Decode (base64Encode proof.toList) = .ok proof.toList :=
    (base64_roundTrip proof.toList).2.2
  have hlength : proof.toList.length = 32 := by simp
  rw [accepts, authMessage, splitFinal_proof]
  dsimp only
  rw [hdecode]
  dsimp only
  rw [dif_pos hlength, show (⟨proof.toList.toArray, hlength⟩ : KeyBuffer) = proof from rfl]
  simp

theorem finalMsg_proof (serverKey : KeyBuffer) (clientFirst serverFirst covered : Bytes)
    (proof : KeyBuffer) : finalMsg hmac serverKey clientFirst serverFirst
        (covered ++ ascii ",p=" ++ base64Encode proof.toList) =
      ascii "v=" ++ base64Encode (hmac serverKey
        (clientFirstBare clientFirst ++ ascii "," ++ serverFirst ++ ascii "," ++ covered)).toList := by
  rw [finalMsg, authMessage, splitFinal_proof]

theorem signature_inj {a b : KeyBuffer}
    (h : ascii "v=" ++ base64Encode a.toList = ascii "v=" ++ base64Encode b.toList) : a = b := by
  have hab := congrArg base64Decode (List.append_cancel_left h)
  rw [(base64_roundTrip a.toList).2.2, (base64_roundTrip b.toList).2.2] at hab
  exact Vector.toList_inj.mp (Except.ok.inj hab)

end ScramServer

/-! ## The client -/

namespace PgConnection

variable {whole : Prop} {c c' : PgConnection} {m : ServerMessage} {ms : List ServerMessage}
  {rs rs' : List ServerReply}

/-- These messages are next and then nothing. If `whole`, then each of the answers to queries among
them, which are read by tasks that nobody awaits, is wholly buffered once its header has been read;
`init` awaits what it reads. -/
structure Receives (whole : Prop) (c : PgConnection) (rs : List ServerReply) : Prop where
  pending : c.pending = (rs.map ServerReply.frame).flatMap Frame.wire
  buffered : whole → ∀ pre r post, rs = pre ++ r :: post → (∃ m, r.message = .reply m) →
    r.frame.BufferedAt c.sock.input ((pre.map ServerReply.frame).flatMap Frame.wire).length

theorem Receives.drop (h : c.Receives whole (rs ++ rs'))
    (hc : c.Consumes ((rs.map ServerReply.frame).flatMap Frame.wire) c') : c'.Receives whole rs' where
  pending := hc.rest_eq (by rw [h.pending, List.map_append, List.flatMap_append])
  buffered hwhole pre r post hrs hr x hx hin := by
    refine h.buffered hwhole (rs ++ pre) r post (by rw [hrs, List.append_assoc]) hr _
      (hc.1.1.endsAt hx) ?_
    rw [List.map_append, List.flatMap_append, List.length_append]
    omega

theorem Receives.congr (h : c.Receives whole rs) (hinput : c'.sock.input = c.sock.input) :
    c'.Receives whole rs where
  pending := by
    show c'.sock.input.pending = _
    rw [hinput]
    exact h.pending
  buffered := by
    rw [hinput]
    exact h.buffered

/-- It is more than enough if every message is wholly buffered. -/
theorem Incoming.receives (h : c.Incoming (rs.map ServerReply.frame) []) : c.Receives whole rs where
  pending := by rw [h.pending, List.append_nil]
  buffered _ pre r post hrs _ := h.buffered (pre.map ServerReply.frame) r.frame
    (post.map ServerReply.frame) (by rw [hrs, List.map_append, List.map_cons])

/-- These messages are next, any of them behind notices, and then nothing. -/
def Greeted (whole : Prop) (c : PgConnection) (ms : List ServerMessage) : Prop :=
  ∃ rs, ServerReply.Carry rs ms ∧ c.Receives whole rs

theorem Greeted.congr (h : c.Greeted whole ms) (hinput : c'.sock.input = c.sock.input) :
    c'.Greeted whole ms := by
  obtain ⟨rs, hcarry, hreceives⟩ := h
  exact ⟨rs, hcarry, hreceives.congr hinput⟩

theorem Greeted.pending_nil (h : c.Greeted whole []) : c.pending = [] := by
  obtain ⟨rs, hcarry, hreceives⟩ := h
  cases hcarry
  exact hreceives.pending

theorem Greeted.hears {ms : List BackendMessage} (h : c.Greeted whole (ms.map .reply))
    (hwhole : whole) : c.Hears ms := by
  obtain ⟨rs, hcarry, hpending, hbuffered⟩ := h
  obtain ⟨rs', rfl, hcarry'⟩ := hcarry.replies
  have hframes : (rs'.map ServerReply.ofReply).map ServerReply.frame = rs'.map Reply.frame := by
    rw [List.map_map]
    rfl
  refine ⟨rs', hcarry', ?_, fun pre f post hrs => ?_⟩
  · rw [hpending, hframes, List.append_nil]
  · obtain ⟨pre', post', rfl, rfl, hpost⟩ := List.map_eq_append_iff.mp hrs
    obtain ⟨r, post'', rfl, rfl, rfl⟩ := List.map_eq_cons_iff.mp hpost
    have := hbuffered hwhole (pre'.map ServerReply.ofReply) (.ofReply r) (post''.map ServerReply.ofReply)
      (by rw [List.map_append, List.map_cons]) ⟨_, rfl⟩
    rwa [List.map_map] at this

/-- Of the next message everything but `data` has been read. -/
structure Opened (whole : Prop) (c : PgConnection) (data : Bytes) (ms : List ServerMessage)
    (c' : PgConnection) : Prop where
  pending : ∃ rest, c'.pending = data ++ rest
  next : ∀ c'', c'.Consumes data c'' → c''.Greeted whole ms
  ready : c'.queryReady = c.queryReady
  output : c'.output = c.output
  shorter : c'.pending.length < c.pending.length

theorem Opened.consumes {bs data : Bytes} {c'' : PgConnection} (h : c.Opened whole (bs ++ data) ms c')
    (hc : c'.Consumes bs c'') : c.Opened whole data ms c'' where
  pending := by
    obtain ⟨rest, hp⟩ := h.pending
    exact ⟨rest, hc.rest_eq (by rw [hp, List.append_assoc])⟩
  next := fun d hd => h.next d (hc.trans hd)
  ready := hc.2.trans h.ready
  output := hc.1.2.1.trans h.output
  shorter := by
    have := h.shorter
    have := hc.length_pending
    omega

theorem Opened.closed {data : Bytes} {c'' : PgConnection} (h : c.Opened whole data ms c')
    (hc : c'.Consumes data c'') : c.Opened whole [] ms c'' := by
  rw [← List.append_nil data] at h
  exact h.consumes hc

theorem Opened.greeted (h : c.Opened whole [] ms c') : c'.Greeted whole ms := h.next c' (.refl c')

theorem Greeted.receive (h : c.Greeted whole (m :: ms)) (hm : m.type ≠ .noticeResponse) :
    ∃ (r : ServerReply) (c' : PgConnection), r.message = m ∧
      (getResponseInfo true).run c = (.returned ⟨r.frame.type, r.frame.size⟩, c') ∧
      c.Opened whole m.payload ms c' := by
  obtain ⟨rs, hcarry, hreceives⟩ := h
  obtain ⟨ns, r, rs', rfl, hns, rfl, hrs'⟩ := hcarry.next
  have hnotices : ∀ f ∈ ns.map ServerReply.frame, f.IsNotice := by
    intro f hf
    obtain ⟨n, hn, rfl⟩ := List.mem_map.mp hf
    exact ⟨by rw [n.type_frame, hns n hn], Nat.le_add_left 4 _⟩
  have hpending := hreceives.pending
  rw [List.map_append, List.map_cons, ← List.append_nil (List.flatMap _ _)] at hpending
  obtain ⟨c', hrun, hc, hrest, hnext⟩ :=
    getResponseInfo_next hnotices (by rwa [r.type_frame]) hpending
  have hlength := hc.length_pending
  rw [List.length_append, Frame.length_header, headerSize] at hlength
  refine ⟨r, c', rfl, hrun, ⟨_, hrest⟩, fun c'' hc'' => ⟨rs', hrs', ?_⟩, hc.2, hc.1.2.1, by omega⟩
  have hall : c.Receives whole ((ns ++ [r]) ++ rs') := by rwa [List.append_assoc]
  refine hall.drop ?_
  rw [List.map_append]
  exact hnext c'' hc''

end PgConnection

namespace Handshake

open PgConnection LoginServer

variable {whole : Prop} {crypt : Crypto} {config : PgConfig} {h : Handshake} {m : ServerMessage}
  {ms : List ServerMessage}

/-! ### Rounds of `init` -/

variable (crypt config) in
theorem initRound_receive (hready : h.conn.queryReady = false) (hg : h.conn.Greeted whole (m :: ms))
    (hm : m.type ≠ .noticeResponse) :
    ∃ (r : ServerReply) (c : PgConnection), r.message = m ∧ h.conn.Opened whole m.payload ms c ∧
      (initRound crypt config ()).run h =
        (initSwitch crypt config ⟨r.frame.type, r.frame.size⟩ >>= fun _ =>
          pure (.inl ())).run { h with conn := c } := by
  obtain ⟨r, c, hr, hinfo, hopened⟩ := hg.receive hm
  have hon : (onConn (getResponseInfo true)).run h =
      (.returned ⟨r.frame.type, r.frame.size⟩, { h with conn := c }) := Coro.run_focus hinfo
  refine ⟨r, c, hr, hopened, ?_⟩
  rw [initRound, Coro.run_get_bind, if_neg (by simp [hready]), Coro.bind_returned _ hon]

variable (crypt config) in
theorem initRound_skip (hready : h.conn.queryReady = false) (hg : h.conn.Greeted whole (m :: ms))
    (hm : m.type = .backendKeyData ∨ m.type = .parameterStatus) :
    ∃ c, h.conn.Opened whole [] ms c ∧
      (initRound crypt config ()).run h = (.returned (.inl ()), { h with conn := c }) := by
  obtain ⟨r, c, rfl, hopened, hround⟩ := initRound_receive crypt config hready hg
    (by rcases hm with hm | hm <;> simp [hm])
  obtain ⟨rest, hp⟩ := hopened.pending
  obtain ⟨c', hskip, hc⟩ := skip_run hp
  have hswitch : initSwitch crypt config ⟨r.frame.type, r.frame.size⟩ = (do
      let _ ← onConn (PgConnection.skip r.message.payload.length)
      pure ()) := by
    rw [r.size_frame, r.type_frame]
    rcases hm with hm | hm
    · rw [hm]
      rfl
    · rw [hm]
      rfl
  have hon : (onConn (PgConnection.skip r.message.payload.length)).run { h with conn := c } =
      (.returned (r.message.payload.length : Int), { h with conn := c' }) := Coro.run_focus hskip
  refine ⟨c', hopened.closed hc, ?_⟩
  rw [hround, hswitch, Coro.bind_assoc, Coro.bind_returned _ hon]
  rfl

variable (crypt config) in
theorem initRound_ready (hready : h.conn.queryReady = false) {status : Byte}
    (hg : h.conn.Greeted whole (.reply (.readyForQuery status) :: ms)) :
    ∃ c, h.conn.Opened whole [] ms c ∧ (initRound crypt config ()).run h =
      (.returned (.inl ()), { h with conn := { c with queryReady := true } }) := by
  obtain ⟨r, c, hr, hopened, hround⟩ := initRound_receive crypt config hready hg
    (by simp [ServerMessage.type, BackendMessage.type])
  obtain ⟨rest, hp⟩ := hopened.pending
  obtain ⟨c', hskip, hc⟩ := skip_run hp
  have hswitch : initSwitch crypt config ⟨r.frame.type, r.frame.size⟩ = (do
      let _ ← onConn (PgConnection.skip r.message.payload.length)
      onConn (setQueryReady true)) := by
    rw [r.size_frame, r.type_frame, hr]
    rfl
  have hon : (onConn (PgConnection.skip r.message.payload.length)).run { h with conn := c } =
      (.returned (r.message.payload.length : Int), { h with conn := c' }) := by
    rw [hr]
    exact Coro.run_focus hskip
  refine ⟨c', hopened.closed hc, ?_⟩
  rw [hround, hswitch, Coro.bind_assoc, Coro.bind_returned _ hon]
  rfl

variable (crypt config) in
theorem initRound_error (hready : h.conn.queryReady = false) {fields : Bytes}
    (hg : h.conn.Greeted whole (.reply (.errorResponse fields) :: ms)) :
    ∃ h', (initRound crypt config ()).run h =
      (.threw (.runtimeError "Postgres ErrorResponse"), h') := by
  obtain ⟨r, c, hr, -, hround⟩ := initRound_receive crypt config hready hg
    (by simp [ServerMessage.type, BackendMessage.type])
  have hswitch : initSwitch crypt config ⟨r.frame.type, r.frame.size⟩ =
      Coro.fail (.runtimeError "Postgres ErrorResponse") := by
    rw [r.type_frame, hr]
    rfl
  rw [hround, hswitch, Coro.fail_bind]
  exact ⟨_, rfl⟩

theorem authCode_writeU32Be {code : Nat} (hcode : code < 2 ^ 32) :
    authCode (writeU32Be code) = code := by
  obtain ⟨b₀, b₁, b₂, b₃, hb, hread⟩ := writeU32Be_eq code
  rw [Nat.mod_eq_of_lt hcode] at hread
  rw [hb]
  exact hread

variable (crypt config) in
theorem initRound_authentication (hready : h.conn.queryReady = false)
    (hg : h.conn.Greeted whole (m :: ms)) (hm : m.type = .authentication) {code : Nat} {data : Bytes}
    (hcode : code < 2 ^ 32) (hpayload : m.payload = writeU32Be code ++ data) :
    ∃ c, h.conn.Opened whole data ms c ∧ (initRound crypt config ()).run h =
      (authSwitch crypt config (AuthType.ofCode code) data.length >>= fun _ =>
        pure (.inl ())).run { h with conn := c } := by
  obtain ⟨r, c, rfl, hopened, hround⟩ := initRound_receive crypt config hready hg (by simp [hm])
  rw [hpayload] at hopened
  obtain ⟨rest, hp⟩ := hopened.pending
  rw [List.append_assoc] at hp
  obtain ⟨c', hread, hc⟩ := readInto_run (h := { h with conn := c }) hp
  change (onSock (Socket.readInto (4 : Nat) true)).run { h with conn := c } = _ at hread
  have hsize : (r.frame.size : Int) - 4 = data.length := by
    rw [r.size_frame, hpayload, List.length_append, length_writeU32Be]
    omega
  have hswitch : initSwitch crypt config ⟨r.frame.type, r.frame.size⟩ =
      handleAuth crypt config ⟨r.frame.type, r.frame.size⟩ := by
    rw [r.type_frame, hm]
    rfl
  refine ⟨c', hopened.consumes hc, ?_⟩
  rw [hround, hswitch, handleAuth_eq, Coro.bind_assoc, Coro.bind_returned _ hread, hsize,
    authCode_writeU32Be hcode]

/-! ### The welcome -/

section Welcome

variable {S : Type} (server : LoginServer S) {n : Nat}

variable (crypt config) in
/-- A round that leaves less to come leaves enough of the rounds. -/
theorem iterate_initRound {h' : Handshake} (hn : h.conn.pending.length < n)
    (hrun : (initRound crypt config ()).run h = (.returned (.inl ()), h'))
    (hlt : h'.conn.pending.length < h.conn.pending.length) :
    ∃ n', h'.conn.pending.length < n' ∧ (Coro.iterate (initRound crypt config) n ()).run h =
      (Coro.iterate (initRound crypt config) n' ()).run h' := by
  obtain ⟨n', rfl⟩ := Nat.exists_eq_succ_of_ne_zero (Nat.ne_zero_of_lt hn)
  exact ⟨n', by omega, Coro.iterate_inl hrun⟩

variable (crypt config) in
theorem iterate_skip (skipped : List ServerMessage)
    (hskipped : ∀ m ∈ skipped, m.type = .backendKeyData ∨ m.type = .parameterStatus)
    (hready : h.conn.queryReady = false) (hg : h.conn.Greeted whole (skipped ++ ms))
    (hn : h.conn.pending.length < n) :
    ∃ n' c, c.Greeted whole ms ∧ c.queryReady = false ∧ c.output = h.conn.output ∧
      c.pending.length < n' ∧
      (Coro.iterate (initRound crypt config) n ()).run h =
        (Coro.iterate (initRound crypt config) n' ()).run { h with conn := c } := by
  induction skipped generalizing h n with
  | nil => exact ⟨n, h.conn, hg, hready, rfl, hn, rfl⟩
  | cons m skipped ih =>
    obtain ⟨hm, hskipped⟩ := List.forall_mem_cons.mp hskipped
    obtain ⟨c, hopened, hround⟩ := initRound_skip crypt config hready hg hm
    obtain ⟨n₁, hn₁, hiterate⟩ := iterate_initRound crypt config hn hround hopened.shorter
    obtain ⟨n', c', hg', hready', hout', hn', hiterate'⟩ := ih hskipped
      (h := { h with conn := c }) (hopened.ready.trans hready) hopened.greeted hn₁
    exact ⟨n', c', hg', hready', hout'.trans hopened.output, hn', hiterate.trans hiterate'⟩

variable (crypt config) in
theorem iterate_ready {status : Byte} (hready : h.conn.queryReady = false)
    (hg : h.conn.Greeted whole (.reply (.readyForQuery status) :: ms)) (hn : h.conn.pending.length < n) :
    ∃ c, (Coro.iterate (initRound crypt config) n ()).run h = (.returned (), { h with conn := c }) ∧
      c.Greeted whole ms ∧ c.queryReady = true ∧ c.output = h.conn.output := by
  obtain ⟨c, hopened, hround⟩ := initRound_ready crypt config hready hg
  obtain ⟨n₁, hn₁, hiterate⟩ := iterate_initRound crypt config hn hround hopened.shorter
  obtain ⟨n', rfl⟩ := Nat.exists_eq_succ_of_ne_zero (Nat.ne_zero_of_lt hn₁)
  refine ⟨{ c with queryReady := true }, ?_, hopened.greeted.congr rfl, rfl, hopened.output⟩
  rw [hiterate]
  refine Coro.iterate_inr ?_
  rw [initRound, Coro.run_get_bind, if_pos rfl, Coro.run_pure]

variable (crypt config) in
/-- A client that is let in takes the whole welcome and nothing else. -/
theorem iterate_welcome (hready : h.conn.queryReady = false)
    (hg : h.conn.Greeted whole (server.welcome ++ ms)) (hn : h.conn.pending.length < n) :
    ∃ c, (Coro.iterate (initRound crypt config) n ()).run h = (.returned (), { h with conn := c }) ∧
      c.Greeted whole ms ∧ c.queryReady = true ∧ c.output = h.conn.output := by
  have hwelcome : server.welcome ++ ms = .authenticationOk ::
      (((server.settings.map fun p => .parameterStatus p.1 p.2) ++ [.backendKeyData server.key]) ++
        .reply (.readyForQuery server.status) :: ms) := by
    simp [welcome]
  rw [hwelcome] at hg
  obtain ⟨c, hopened, hround⟩ := initRound_authentication crypt config hready hg rfl
    (by decide : 0 < 2 ^ 32) (List.append_nil _).symm
  obtain ⟨n₁, hn₁, hiterate⟩ := iterate_initRound crypt config hn hround hopened.shorter
  obtain ⟨n₂, c₂, hg₂, hready₂, hout₂, hn₂, hiterate₂⟩ := iterate_skip crypt config
    ((server.settings.map fun p => .parameterStatus p.1 p.2) ++ [.backendKeyData server.key])
    (by
      intro m hm
      rcases List.mem_append.mp hm with hm | hm
      · obtain ⟨p, -, rfl⟩ := List.mem_map.mp hm
        exact .inr rfl
      · rw [List.mem_singleton.mp hm]
        exact .inl rfl)
    (h := { h with conn := c }) (hopened.ready.trans hready) hopened.greeted hn₁
  obtain ⟨c₃, hrun, hg₃, hready₃, hout₃⟩ := iterate_ready crypt config
    (h := { h with conn := c₂ }) hready₂ hg₂ hn₂
  exact ⟨c₃, by rw [hiterate, hiterate₂, hrun], hg₃, hready₃,
    hout₃.trans (hout₂.trans hopened.output)⟩

end Welcome

/-! ### Answers -/

/-- These bytes have been written, and nothing else has changed. -/
structure Says (h : Handshake) (bs : Bytes) (h' : Handshake) : Prop where
  writes : h.conn.sock.Writes bs h'.conn.sock
  scr : h'.scr = h.scr
  ready : h'.conn.queryReady = h.conn.queryReady

/-- What writing leaves alone. -/
def aside (h : Handshake) : Scram × Bool := (h.scr, h.conn.queryReady)

theorem aside_onSock {α : Type} (t : Coro Socket Exn α) : Coro.Keeps aside (onSock t) := fun _ => rfl

theorem says_of_sends {t : Coro Handshake Exn Unit} {bs : Bytes}
    (ht : Sends (fun h : Handshake => h.conn.sock) t bs) (hkeeps : Coro.Keeps aside t)
    (hs : h.output.SendsSucceed) : ∃ h', t.run h = (.returned (), h') ∧ h.Says bs h' := by
  obtain ⟨h', hrun, hw⟩ := ht h hs
  have haside := hkeeps h
  rw [hrun] at haside
  obtain ⟨hscr, hready⟩ := Prod.mk.inj haside
  exact ⟨h', hrun, hw, hscr, hready⟩

theorem respond_says (body : Bytes) (hs : h.output.SendsSucceed) :
    ∃ h', (respond body).run h = (.returned (), h') ∧
      h.Says (responseHeader 'p'.toUInt8 body.length ++ body) h' :=
  says_of_sends (sends_respond body)
    ((aside_onSock _).bind fun _ => (aside_onSock _).bind fun _ => aside_onSock _) hs

variable (config) in
theorem respondMechanisms_says {mechanisms : Bytes} (hfound : scramSha256 <:+: mechanisms)
    {bytes : Vector Byte 24} (hrandom : h.random 0 = some bytes) (hs : h.output.SendsSucceed) :
    ∃ h', (respondMechanisms config mechanisms).run h = (.returned (), h') ∧
      ({ h with scr := { h.scr with
          clientNonce := base64Encode bytes.toList
          clientFirstMsgBare := Scram.firstMsgBare config.user (base64Encode bytes.toList) } } :
        Handshake).Says (saslInitialResponse scramSha256
          (ascii "n,," ++ Scram.firstMsgBare config.user (base64Encode bytes.toList))).wire h' := by
  obtain ⟨h', hrun, hsaid⟩ := says_of_sends (sends_saslInitialResponse
      (ascii "n,," ++ Scram.firstMsgBare config.user (base64Encode bytes.toList)))
    ((aside_onSock _).bind fun _ => (aside_onSock _).bind fun _ => (aside_onSock _).bind fun _ =>
      (aside_onSock _).bind fun _ => aside_onSock _)
    (h := { h with
      scr := { h.scr with
        clientNonce := base64Encode bytes.toList
        clientFirstMsgBare := Scram.firstMsgBare config.user (base64Encode bytes.toList) }
      random := fun i => h.random (i + 1) }) hs
  have hnonce : generateRandomString.run h = (.returned (base64Encode bytes.toList),
      { h with random := fun i => h.random (i + 1) }) := by
    simp only [generateRandomString, hrandom]
  refine ⟨h', ?_, hsaid.writes, hsaid.scr, hsaid.ready⟩
  rw [respondMechanisms, if_neg (not_not.mpr hfound), Coro.bind_returned _ hnonce]
  exact hrun

variable {S : Type} (server : LoginServer S) (pbkdf2 : Bytes → Bytes → Nat → KeyBuffer)

variable (config) in
/-- The answer to the server's first message proves that the client knows the password, and the client
goes on to expect the signature of a server that does. -/
theorem respondServerFirst_says (v : ScramVerifier) {nonce : Bytes} (hnonce : ','.toUInt8 ∉ nonce)
    (hclient : h.scr.clientNonce = nonce)
    (hbare : h.scr.clientFirstMsgBare = Scram.firstMsgBare config.user nonce)
    (hs : h.output.SendsSucceed) :
    let salted := pbkdf2 config.password v.salt v.iterations
    let text := authMessage v config.user nonce
    ∃ scr h', (respondServerFirst (Crypto.total pbkdf2 server.hmac server.sha256) config
        (v.firstMsg nonce)).run h = (.returned (), h') ∧
      ({ h with scr := scr } : Handshake).Says (saslResponse (v.covered nonce ++ ascii ",p=" ++
        base64Encode (server.proof salted text).toList)).wire h' ∧
      scr.expectedServerFinalMsg = ascii "v=" ++ base64Encode
        (server.hmac (server.hmac salted (ascii "Server Key")) text).toList := by
  intro salted text
  subst hclient
  have hcomma : ','.toUInt8 ∉ h.scr.clientNonce ++ v.extension := fun hmem =>
    (List.mem_append.mp hmem).elim hnonce v.no_comma
  let scr₁ : Scram := { h.scr with
    serverFirstMsg := v.firstMsg h.scr.clientNonce
    serverNonce := h.scr.clientNonce ++ v.extension
    salt := v.salt
    iterations := v.iterations }
  have hresolve : (onScram (Scram.resolveServerFirstMsg (v.firstMsg h.scr.clientNonce))).run h =
      (.returned (), { h with scr := scr₁ }) :=
    Coro.run_focus (Scram.resolveServerFirstMsg_run hcomma v.salt v.iterations_lt)
  have htext : scr₁.authMessage = text := by
    change h.scr.clientFirstMsgBare ++ _ ++ _ ++ _ ++ _ = _
    rw [hbare]
    rfl
  have hfinal := Scram.generateClientFinalMsg_run pbkdf2 server.hmac server.sha256 (s := scr₁)
    v.iterations_lt rfl config.password
  have hproof : Scram.clientProof server.hmac server.sha256
      (pbkdf2 config.password scr₁.salt v.iterations) scr₁ = server.proof salted text := by
    rw [Scram.clientProof, htext]
    rfl
  rw [hproof, htext] at hfinal
  have hgenerate {o : Outcome Exn Bytes} {s : Scram}
      (hrun : (Scram.generateClientFinalMsg (Crypto.total pbkdf2 server.hmac server.sha256)
        config.password).run scr₁ = (o, s)) :
      (onScram (Scram.generateClientFinalMsg (Crypto.total pbkdf2 server.hmac server.sha256)
        config.password)).run { h with scr := scr₁ } = (o, { h with scr := s }) :=
    Coro.run_focus hrun
  obtain ⟨h', hrespond, hsaid⟩ := respond_says (h := { h with scr := { scr₁ with
      expectedServerFinalMsg := ascii "v=" ++ base64Encode
        (server.hmac (server.hmac salted (ascii "Server Key")) text).toList } })
    (v.covered h.scr.clientNonce ++ ascii ",p=" ++ base64Encode (server.proof salted text).toList) hs
  refine ⟨_, h', ?_, hsaid, rfl⟩
  rw [respondServerFirst, Coro.bind_returned _ hresolve]
  exact (Coro.bind_returned _ (hgenerate hfinal)).trans hrespond

end Handshake

end CppEvent
