import CppEvent.Postgres.Login

/-!
# What comes of a login

`init` in a conversation with a `LoginServer`, in which the server reads the bytes that the client writes
in the very run that is fed by its replies (`Connects`). Both sides come to the verdict that follows from
what the server has stored of the password (`login`), and behind a login the client goes on with the
database of the server (`login_session`).
-/

namespace CppEvent

open Coroutine FrontendMessage PgConnection LoginServer

/-! ## Both sides -/

section Meets

variable {whole : Prop} {S : Type} {server : LoginServer S} {final : Output}
  {goal phase : LoginPhase S} {requests : List AuthRequest} {unread : List ServerMessage}
  {c : PgConnection}

/-- The server is at `phase` and has sent `unread`, of which the client has taken nothing. What the
client goes on to write, up to `final`, it parses, with an answer to each of the `requests`; its replies
to that are what comes next, and it takes the server to `goal`. -/
def PgConnection.Meets (whole : Prop) (c : PgConnection) (server : LoginServer S) (final : Output)
    (goal phase : LoginPhase S) (requests : List AuthRequest) (unread : List ServerMessage) : Prop :=
  c.output.SendsSucceed ∧ ∃ bs n sent, final.written = c.output.written ++ bs ∧
    Frontend.parseMessages n requests bs = some sent ∧
    Responder.after server.step phase sent = goal ∧
    c.Greeted whole (unread ++ Responder.replies server.step phase sent)

namespace PgConnection.Meets

/-- The next message is one that has been sent. -/
theorem opened {m : ServerMessage} (h : c.Meets whole server final goal phase requests (m :: unread)) :
    ∃ ms, c.Greeted whole (m :: ms) ∧ ∀ c', c.Opened whole [] ms c' →
      c'.Meets whole server final goal phase requests unread := by
  obtain ⟨hs, bs, n, sent, hbs, hparse, hgoal, hg⟩ := h
  refine ⟨_, hg, fun c' hopened => ?_⟩
  have hout : c'.output = c.output := hopened.output
  exact ⟨hout ▸ hs, bs, n, sent, hout ▸ hbs, hparse, hgoal, hopened.greeted⟩

/-- An answer takes the server a step on. -/
theorem answer {m : FrontendMessage} {c' : PgConnection}
    (h : c.Meets whole server final goal phase (m.request?.toList ++ requests) []) (hm : m.WellFormed)
    (hstartup : m.isStartup = false) (hlength : m.body.length + 4 < 2 ^ 32)
    (hw : c.sock.Writes m.wire c'.sock) (hfinal : c'.output.written <+: final.written) :
    c'.Meets whole server final goal (server.step phase m).2 requests (server.step phase m).1 := by
  obtain ⟨-, bs, n, sent, hbs, hparse, hgoal, hg⟩ := h
  obtain ⟨p, hp⟩ := hfinal
  have hsplit : bs = m.wire ++ p := by
    have hwritten : c'.output.written = c.output.written ++ m.wire := hw.2.2.2
    rw [hwritten, List.append_assoc, hbs] at hp
    exact (List.append_cancel_left hp).symm
  rw [hsplit] at hparse
  obtain ⟨n', sent', rfl, hparse'⟩ := Frontend.parseMessages_cons hm hstartup hlength hparse
  exact ⟨hw.2.2.1, p, n', sent', hp.symm, hparse', hgoal, hg.congr hw.1⟩

/-- When the client has written everything, the server is at its goal. -/
theorem stop (h : c.Meets whole server c.output goal phase requests unread) :
    c.Greeted whole unread ∧ phase = goal := by
  obtain ⟨-, bs, n, sent, hbs, hparse, hgoal, hg⟩ := h
  obtain rfl : bs = [] := List.self_eq_append_right.mp hbs
  obtain rfl : [] = sent := by
    cases n <;> exact Option.some.inj hparse
  rw [Responder.replies, List.append_nil] at hg
  exact ⟨hg, hgoal⟩

/-- A client that has been let in goes on with the server behind the login. -/
theorem converses {s : S} (h : c.Meets whole server final goal (.serving s) [] []) (hwhole : whole) :
    ∃ goal', goal = .serving goal' ∧ c.Converses server.serve final goal' s [] := by
  obtain ⟨hs, bs, n, sent, hbs, hparse, hgoal, hg⟩ := h
  obtain ⟨hreplies, hafter⟩ := server.replies_serving s sent
  rw [hreplies] at hg
  exact ⟨_, hgoal.symm.trans hafter, hs, bs, n, sent, hbs, hparse, rfl, hg.hears hwhole⟩

end PgConnection.Meets

end Meets

/-- A configuration whose texts can be sent. -/
structure PgConfig.Sendable (config : PgConfig) : Prop where
  user : 0 ∉ config.user
  password : 0 ∉ config.password
  database : 0 ∉ config.database
  length_lt : config.user.length + config.database.length < 2 ^ 31
  password_lt : config.password.length < 2 ^ 31

namespace Handshake

variable {whole : Prop} {S : Type} {server : LoginServer S} {final : Output}
  {goal phase : LoginPhase S} {requests : List AuthRequest} {crypt : Crypto} {config : PgConfig}
  {h : Handshake} {n : Nat} {β : Type} {k : Unit → Coro Handshake Exn β}

theorem preserves_iterate (w : Bytes) (n : Nat) :
    Coro.Preserves (fun h : Handshake => HasWritten w h.conn)
      (Coro.iterate (initRound crypt config) n ()) := by
  refine .iterate (fun _ h hh => ?_) n ()
  obtain ⟨bs, hw⟩ := initRound_wrote crypt config hh.1
  exact hh.of_wrote hw

/-- How far both sides are when `init` ends with a verdict. -/
def Settled (whole : Prop) (server : LoginServer S) (final : Output) (goal : LoginPhase S) (v : Verdict)
    (r : Outcome Exn Unit × Handshake) : Prop :=
  r.1 = v.outcome ∧ match v with
    | .admitted => r.2.conn.queryReady = true ∧
        r.2.conn.Meets whole server final goal (.serving server.first) [] []
    | _ => goal = v.phase server.first

theorem iterate_answer {h₁ : Handshake} {c : PgConnection} {m : FrontendMessage}
    (hmeets : c.Meets whole server final goal phase (m.request?.toList ++ requests) [])
    (hm : m.WellFormed) (hstartup : m.isStartup = false) (hlength : m.body.length + 4 < 2 ^ 32)
    (hrun : (initRound crypt config ()).run h = (.returned (.inl ()), h₁))
    (hw : c.sock.Writes m.wire h₁.conn.sock) (hlt : c.pending.length < h.conn.pending.length)
    (hn : h.conn.pending.length < n)
    (hk : ∀ w, Coro.Preserves (fun h : Handshake => HasWritten w h.conn) (k ()))
    (hfinal : final = ((Coro.iterate (initRound crypt config) n () >>= k).run h).2.output) :
    ∃ n', h₁.conn.pending.length < n' ∧
      (Coro.iterate (initRound crypt config) n ()).run h =
        (Coro.iterate (initRound crypt config) n' ()).run h₁ ∧
      final = ((Coro.iterate (initRound crypt config) n' () >>= k).run h₁).2.output ∧
      h₁.conn.Meets whole server final goal (server.step phase m).2 requests (server.step phase m).1 := by
  have hpending : h₁.conn.pending = c.pending := congrArg Input.pending hw.1
  obtain ⟨n', hn', hiterate⟩ := iterate_initRound crypt config hn hrun (hpending ▸ hlt)
  rw [Coro.run_bind, hiterate, ← Coro.run_bind] at hfinal
  refine ⟨n', hn', hiterate, hfinal, hmeets.answer hm hstartup hlength hw ?_⟩
  rw [hfinal]
  exact (((preserves_iterate _ n').bind fun _ => hk _) h₁ ⟨hw.2.2.1, List.prefix_rfl⟩).2

/-! ### How a login ends -/

theorem settled_welcome (hready : h.conn.queryReady = false)
    (hm : h.conn.Meets whole server final goal (.serving server.first) [] server.welcome)
    (hn : h.conn.pending.length < n) :
    Settled whole server final goal .admitted ((Coro.iterate (initRound crypt config) n ()).run h) := by
  obtain ⟨hs, bs, j, sent, hbs, hparse, hgoal, hg⟩ := hm
  obtain ⟨c, hrun, hg', hready', hout⟩ := iterate_welcome crypt config server hready hg hn
  rw [hrun]
  have hout' : c.output = h.conn.output := hout
  exact ⟨rfl, hready', hout' ▸ hs, bs, j, sent, hout' ▸ hbs, hparse, hgoal, hg'⟩

theorem settled_refusal (hready : h.conn.queryReady = false)
    (hm : h.conn.Meets whole server final goal .closed requests (server.refuse).1)
    (hn : h.conn.pending.length < n) :
    Settled whole server final goal .refused ((Coro.iterate (initRound crypt config) n ()).run h) := by
  obtain ⟨hs, bs, j, sent, hbs, hparse, hgoal, hg⟩ := hm
  obtain ⟨h', hround⟩ := initRound_error crypt config hready hg
  obtain ⟨n', rfl⟩ := Nat.exists_eq_succ_of_ne_zero (Nat.ne_zero_of_lt hn)
  rw [Coro.iterate, Coro.bind_threw _ hround]
  exact ⟨rfl, hgoal.symm.trans (server.replies_closed sent).2⟩

theorem settled_password {expected : Bytes} (hready : h.conn.queryReady = false)
    (hpassword : 0 ∉ config.password) (hlength : config.password.length < 2 ^ 31)
    (hm : h.conn.Meets whole server final goal (.password expected) [.clearTextPassword]
      [.authenticationCleartextPassword])
    (hn : h.conn.pending.length < n)
    (hk : ∀ w, Coro.Preserves (fun h : Handshake => HasWritten w h.conn) (k ()))
    (hfinal : final = ((Coro.iterate (initRound crypt config) n () >>= k).run h).2.output) :
    Settled whole server final goal (if config.password = expected then .admitted else .refused)
      ((Coro.iterate (initRound crypt config) n ()).run h) := by
  obtain ⟨ms, hg, hnext⟩ := hm.opened
  obtain ⟨c, hopened, hround⟩ := initRound_authentication crypt config hready hg rfl
    (by decide : 3 < 2 ^ 32) (List.append_nil _).symm
  have hmeets := hnext c hopened
  obtain ⟨h₁, hrespond, hsaid⟩ :=
    respond_says (h := { h with conn := c }) (config.password ++ [0]) hmeets.1
  have hrun : (initRound crypt config ()).run h = (.returned (.inl ()), h₁) := by
    rw [hround]
    exact Coro.bind_returned _ hrespond
  have hbody : (FrontendMessage.password config.password).body.length + 4 < 2 ^ 32 := by
    simp only [body, text, List.length_append, List.length_singleton]
    omega
  obtain ⟨n', hn', hiterate, -, hmeets'⟩ := iterate_answer
    (m := .password config.password) hmeets hpassword rfl hbody hrun hsaid.writes hopened.shorter hn hk
    hfinal
  have hready' : h₁.conn.queryReady = false := hsaid.ready.trans (hopened.ready.trans hready)
  rw [hiterate]
  by_cases heq : config.password = expected
  · have hstep : server.step (.password expected) (.password config.password) =
        (server.welcome, .serving server.first) := if_pos heq
    rw [hstep] at hmeets'
    rw [if_pos heq]
    exact settled_welcome hready' hmeets' hn'
  · have hstep : server.step (.password expected) (.password config.password) = server.refuse :=
      if_neg heq
    rw [hstep] at hmeets'
    rw [if_neg heq]
    exact settled_refusal hready' hmeets' hn'

/-- The server's signature is the one that the client expects, or the client throws. -/
theorem settled_final {v : ScramVerifier} {salted : KeyBuffer} {signed : Bytes}
    (hready : h.conn.queryReady = false)
    (hexpected : h.scr.expectedServerFinalMsg = ascii "v=" ++ base64Encode
      (server.hmac (server.hmac salted (ascii "Server Key")) signed).toList)
    (hm : h.conn.Meets whole server final goal (.serving server.first) []
      (.authenticationSaslFinal (ascii "v=" ++ base64Encode (server.hmac v.serverKey signed).toList) ::
        server.welcome))
    (hn : h.conn.pending.length < n)
    (hfinal : final = ((Coro.iterate (initRound crypt config) n () >>= k).run h).2.output) :
    Settled whole server final goal
      (if server.hmac v.serverKey signed =
        server.hmac (server.hmac salted (ascii "Server Key")) signed then .admitted else .unproven)
      ((Coro.iterate (initRound crypt config) n ()).run h) := by
  obtain ⟨ms, hg, hnext⟩ := hm.opened
  obtain ⟨c, hopened, hround⟩ := initRound_authentication crypt config hready hg rfl
    (by decide : 12 < 2 ^ 32) rfl
  obtain ⟨rest, hp⟩ := hopened.pending
  obtain ⟨c', hread, hc⟩ := read_run (h := { h with conn := c }) hp
  have hclosed := hopened.closed hc
  have hcode : AuthType.ofCode 12 = .saslFinal := rfl
  rw [hcode, authSwitch, Coro.bind_assoc, Coro.bind_returned _ hread, Coro.bind_assoc,
    Coro.run_get_bind] at hround
  by_cases heq : server.hmac v.serverKey signed =
      server.hmac (server.hmac salted (ascii "Server Key")) signed
  · have hverify : h.scr.verifyServerFinalMsg
        (ascii "v=" ++ base64Encode (server.hmac v.serverKey signed).toList) = true := by
      rw [Scram.verifyServerFinalMsg, hexpected, heq]
      exact beq_self_eq_true _
    rw [if_pos hverify] at hround
    obtain ⟨n', hn', hiterate⟩ := iterate_initRound crypt config hn hround hclosed.shorter
    rw [if_pos heq, hiterate]
    exact settled_welcome (h := { h with conn := c' }) (hclosed.ready.trans hready)
      (hnext c' hclosed) hn'
  · have hverify : ¬ h.scr.verifyServerFinalMsg
        (ascii "v=" ++ base64Encode (server.hmac v.serverKey signed).toList) = true := by
      rw [Scram.verifyServerFinalMsg, hexpected, beq_iff_eq]
      exact fun hsame => heq (ScramServer.signature_inj hsame)
    rw [if_neg hverify, Coro.fail_bind] at hround
    have hthrow : (Coro.iterate (initRound crypt config) n ()).run h =
        (.threw (.runtimeError "SASL Auth unexpected final msg"), { h with conn := c' }) := by
      obtain ⟨n', rfl⟩ := Nat.exists_eq_succ_of_ne_zero (Nat.ne_zero_of_lt hn)
      rw [Coro.iterate]
      exact Coro.bind_threw _ hround
    rw [Coro.bind_threw _ hthrow] at hfinal
    subst hfinal
    rw [if_neg heq, hthrow]
    exact ⟨rfl, (hnext c' hclosed).stop.2.symm⟩

variable (pbkdf2 : Bytes → Bytes → Nat → KeyBuffer)

theorem length_base64Encode_key (key : KeyBuffer) : (base64Encode key.toList).length = 44 := by
  rw [base64Encode_eq, length_rfc4648, Vector.length_toList]

/-- Behind the server's first message the proof decides, and then the signature. -/
theorem settled_proof {v : ScramVerifier} {nonce : Bytes} (hnonce : ','.toUInt8 ∉ nonce)
    (hlength : nonce.length = 32) (huser : ','.toUInt8 ∉ config.user)
    (hready : h.conn.queryReady = false) (hclient : h.scr.clientNonce = nonce)
    (hbare : h.scr.clientFirstMsgBare = Scram.firstMsgBare config.user nonce)
    (hm : h.conn.Meets whole server final goal
      (.proof v (ascii "n,," ++ Scram.firstMsgBare config.user nonce)) [.saslContinue]
      [.authenticationSaslContinue (v.firstMsg nonce)])
    (hn : h.conn.pending.length < n)
    (hk : ∀ w, Coro.Preserves (fun h : Handshake => HasWritten w h.conn) (k ()))
    (hfinal : final = ((Coro.iterate
      (initRound (Crypto.total pbkdf2 server.hmac server.sha256) config) n () >>= k).run h).2.output) :
    let salted := pbkdf2 config.password v.salt v.iterations
    let signed := authMessage v config.user nonce
    let key := Vector.zipWith (· ^^^ ·) (server.proof salted signed) (server.hmac v.storedKey signed)
    Settled whole server final goal
      (if server.sha256 key ≠ v.storedKey then .refused
        else if server.hmac v.serverKey signed =
          server.hmac (server.hmac salted (ascii "Server Key")) signed then .admitted
        else .unproven)
      ((Coro.iterate (initRound (Crypto.total pbkdf2 server.hmac server.sha256) config) n ()).run h) := by
  intro salted signed key
  obtain ⟨ms, hg, hnext⟩ := hm.opened
  obtain ⟨c, hopened, hround⟩ := initRound_authentication
    (Crypto.total pbkdf2 server.hmac server.sha256) config hready hg rfl
    (by decide : 11 < 2 ^ 32) rfl
  obtain ⟨rest, hp⟩ := hopened.pending
  obtain ⟨c', hread, hc⟩ := read_run (h := { h with conn := c }) hp
  have hclosed := hopened.closed hc
  have hmeets := hnext c' hclosed
  obtain ⟨scr, h₁, hrespond, hsaid, hexpected⟩ := respondServerFirst_says config server pbkdf2 v hnonce
    (h := { h with conn := c' }) hclient hbare hmeets.1
  have hrun : (initRound (Crypto.total pbkdf2 server.hmac server.sha256) config ()).run h =
      (.returned (.inl ()), h₁) := by
    have hcode : AuthType.ofCode 11 = .saslContinue := rfl
    rw [hround, hcode, authSwitch, Coro.bind_assoc, Coro.bind_returned _ hread]
    exact Coro.bind_returned _ hrespond
  have hbody : (FrontendMessage.saslResponse (v.covered nonce ++ ascii ",p=" ++
      base64Encode (server.proof salted signed).toList)).body.length + 4 < 2 ^ 32 := by
    have hcovered : (ascii "c=biws,r=").length = 9 := rfl
    have hproof : (ascii ",p=").length = 3 := rfl
    have := v.length_lt
    simp only [body, List.length_append, ScramVerifier.covered, length_base64Encode_key]
    omega
  obtain ⟨n', hn', hiterate, hfinal', hmeets'⟩ := iterate_answer
    (m := .saslResponse _) hmeets trivial rfl hbody hrun hsaid.writes hclosed.shorter hn hk hfinal
  have hready' : h₁.conn.queryReady = false := hsaid.ready.trans (hclosed.ready.trans hready)
  have hclientNonce := ScramServer.clientNonce_first huser nonce
  have hfirst : ScramServer.clientFirstBare (ascii "n,," ++ Scram.firstMsgBare config.user nonce) =
      Scram.firstMsgBare config.user nonce := List.drop_left' rfl
  have haccepts := ScramServer.accepts_iff server.hmac server.sha256 v.storedKey
    (ascii "n,," ++ Scram.firstMsgBare config.user nonce) (v.firstMsg nonce) (v.covered nonce)
    (server.proof salted signed)
  have hfinalMsg := ScramServer.finalMsg_proof server.hmac v.serverKey
    (ascii "n,," ++ Scram.firstMsgBare config.user nonce) (v.firstMsg nonce) (v.covered nonce)
    (server.proof salted signed)
  rw [hfirst] at haccepts hfinalMsg
  have hsplit : (ScramServer.splitFinal (v.covered nonce ++ ascii ",p=" ++
      base64Encode (server.proof salted signed).toList)).1 = v.covered nonce := by
    rw [ScramServer.splitFinal_proof]
  rw [LoginServer.step] at hmeets'
  rw [hclientNonce] at hmeets'
  rw [hiterate]
  by_cases hkey : server.sha256 key = v.storedKey
  · rw [if_pos ⟨hsplit, haccepts.mpr hkey⟩, hfinalMsg] at hmeets'
    rw [if_neg (not_not.mpr hkey)]
    exact settled_final hready' (by rw [hsaid.scr]; exact hexpected) hmeets' hn' hfinal'
  · rw [if_neg fun hboth => hkey (haccepts.mp hboth.2)] at hmeets'
    rw [if_pos hkey]
    exact settled_refusal hready' hmeets' hn'

theorem settled_mechanism {v : ScramVerifier} {bytes : Vector Byte 24}
    (hrandom : h.random 0 = some bytes) (huser : ','.toUInt8 ∉ config.user)
    (hlength : config.user.length < 2 ^ 31) (hready : h.conn.queryReady = false)
    (hm : h.conn.Meets whole server final goal (.mechanism v) [.sasl, .saslContinue]
      [.authenticationSasl v.mechanisms])
    (hn : h.conn.pending.length < n)
    (hk : ∀ w, Coro.Preserves (fun h : Handshake => HasWritten w h.conn) (k ()))
    (hfinal : final = ((Coro.iterate
      (initRound (Crypto.total pbkdf2 server.hmac server.sha256) config) n () >>= k).run h).2.output) :
    let salted := pbkdf2 config.password v.salt v.iterations
    let signed := authMessage v config.user (base64Encode bytes.toList)
    let key := Vector.zipWith (· ^^^ ·) (server.proof salted signed) (server.hmac v.storedKey signed)
    Settled whole server final goal
      (if server.sha256 key ≠ v.storedKey then .refused
        else if server.hmac v.serverKey signed =
          server.hmac (server.hmac salted (ascii "Server Key")) signed then .admitted
        else .unproven)
      ((Coro.iterate (initRound (Crypto.total pbkdf2 server.hmac server.sha256) config) n ()).run h) := by
  intro salted signed key
  have hnonce : (base64Encode bytes.toList).length = 32 := by
    rw [base64Encode_eq, length_rfc4648, Vector.length_toList]
  obtain ⟨ms, hg, hnext⟩ := hm.opened
  obtain ⟨c, hopened, hround⟩ := initRound_authentication
    (Crypto.total pbkdf2 server.hmac server.sha256) config hready hg rfl
    (by decide : 10 < 2 ^ 32) rfl
  obtain ⟨rest, hp⟩ := hopened.pending
  obtain ⟨c', hread, hc⟩ := read_run (h := { h with conn := c }) hp
  have hclosed := hopened.closed hc
  have hmeets := hnext c' hclosed
  have hfound : scramSha256 <:+: mechanismList v.mechanisms :=
    (scramSha256_infix_iff v.mechanisms).mpr ⟨scramSha256, v.offered, List.infix_rfl⟩
  obtain ⟨h₁, hrespond, hsaid⟩ := respondMechanisms_says config hfound
    (h := { h with conn := c' }) hrandom hmeets.1
  have hrun : (initRound (Crypto.total pbkdf2 server.hmac server.sha256) config ()).run h =
      (.returned (.inl ()), h₁) := by
    have hcode : AuthType.ofCode 10 = .sasl := rfl
    rw [hround, hcode, authSwitch, Coro.bind_assoc, Coro.bind_returned _ hread]
    exact Coro.bind_returned _ hrespond
  have hbody : (saslInitialResponse scramSha256 (ascii "n,," ++
      Scram.firstMsgBare config.user (base64Encode bytes.toList))).body.length + 4 < 2 ^ 32 := by
    have hheader : (ascii "n,,").length = 3 := rfl
    have hname : (ascii "n=").length = 2 := rfl
    have hattribute : (ascii ",r=").length = 3 := rfl
    have hmechanism : scramSha256.length = 13 := rfl
    simp only [body, text, List.length_append, Scram.firstMsgBare, hnonce, length_writeU32Be,
      List.length_singleton]
    omega
  have hwf : (saslInitialResponse scramSha256 (ascii "n,," ++
      Scram.firstMsgBare config.user (base64Encode bytes.toList))).WellFormed := by
    change 0 ∉ scramSha256
    decide
  obtain ⟨n', hn', hiterate, hfinal', hmeets'⟩ := iterate_answer
    (m := saslInitialResponse _ _) hmeets hwf rfl hbody hrun hsaid.writes hclosed.shorter hn hk hfinal
  have hheader : ascii "n,,n=" <+: ascii "n,," ++
      Scram.firstMsgBare config.user (base64Encode bytes.toList) :=
    ⟨config.user ++ (ascii ",r=" ++ base64Encode bytes.toList), by
      rw [Scram.firstMsgBare, List.append_assoc (ascii "n=" ++ config.user),
        List.append_assoc (ascii "n=")]
      rfl⟩
  rw [LoginServer.step] at hmeets'
  rw [if_pos ⟨rfl, hheader⟩, ScramServer.clientNonce_first huser] at hmeets'
  rw [hiterate]
  exact settled_proof pbkdf2 (comma_not_mem_base64Encode _) hnonce huser
    (hsaid.ready.trans (hclosed.ready.trans hready)) (by rw [hsaid.scr]) (by rw [hsaid.scr]) hmeets' hn'
    hk hfinal'

/-! ### The whole of `init` -/

/-- A client before `init` and a server at the start: what the client goes on to write, up to `final`,
the server parses, its replies to that are what the client receives, and it takes the server to
`goal`. If `whole`, answers to queries are buffered as a whole once their headers are read. -/
def Connects (whole : Prop) (h : Handshake) (server : LoginServer S) (config : PgConfig) (final : Output)
    (goal : LoginPhase S) : Prop :=
  h.conn.queryReady = false ∧ h.output.SendsSucceed ∧
    ∃ bs sent, final.written = h.output.written ++ bs ∧
      Frontend.parseStream (LoginServer.requests (server.method config.user)) bs = some sent ∧
      Responder.after server.step .startup sent = goal ∧
      h.conn.Greeted whole (Responder.replies server.step .startup sent)

theorem step_startup (server : LoginServer S) (config : PgConfig) :
    server.step .startup (startupOf config) = match server.method config.user with
      | none => server.refuse
      | some .trust => (server.welcome, .serving server.first)
      | some (.clearTextPassword expected) => ([.authenticationCleartextPassword], .password expected)
      | some (.scram v) => ([.authenticationSasl v.mechanisms], .mechanism v) := rfl

variable {bytes : Vector Byte 24}

/-- Behind the startup message the client is at its first round. -/
theorem Connects.start (hc : h.Connects whole server config final goal) (hconfig : config.Sendable)
    (hk : ∀ w, Coro.Preserves (fun h : Handshake => HasWritten w h.conn) (k ()))
    (hfinal : final = ((init crypt config >>= k).run h).2.output) :
    ∃ h₁, h₁.random = h.random ∧ h₁.conn.queryReady = false ∧
      (init crypt config).run h =
        (Coro.iterate (initRound crypt config) (h₁.conn.pending.length + 1) ()).run h₁ ∧
      final = ((Coro.iterate (initRound crypt config) (h₁.conn.pending.length + 1) () >>=
        k).run h₁).2.output ∧
      h₁.conn.Meets whole server final goal (server.step .startup (startupOf config)).2
        (LoginServer.requests (server.method config.user))
        (server.step .startup (startupOf config)).1 := by
  obtain ⟨hready, hs, bs, sent, hbs, hparse, hgoal, hg⟩ := hc
  have hsends : Sends (fun h : Handshake => h.conn.sock) (do
      onSock (Socket.write
        (writeU32Be (8 + (startupMessage config).length) ++ writeU32Be (3 * 2 ^ 16 + 0)))
      onSock (Socket.write (startupMessage config))
      onSock Socket.flush) (startupOf config).wire :=
    ((sends_write _).bind ((sends_write _).bind sends_flush)).of_eq
      (by rw [wire_startupOf, List.append_nil])
  have hkeeps : Coro.Keeps (fun h : Handshake => (h.random, h.conn.queryReady)) (do
      onSock (Socket.write
        (writeU32Be (8 + (startupMessage config).length) ++ writeU32Be (3 * 2 ^ 16 + 0)))
      onSock (Socket.write (startupMessage config))
      onSock Socket.flush) :=
    .bind (fun _ => rfl) fun _ => .bind (fun _ => rfl) fun _ => fun _ => rfl
  obtain ⟨h₁, hrun, hw⟩ := hsends h hs
  have haside := hkeeps h
  rw [hrun] at haside
  obtain ⟨hrandom, hready₁⟩ := Prod.mk.inj haside
  have hinit : (init crypt config).run h =
      (Coro.iterate (initRound crypt config) (h₁.conn.pending.length + 1) ()).run
        { h₁ with scr := Scram.new } := by
    rw [init_eq, Coro.bind_returned _ hrun]
    rfl
  rw [Coro.run_bind, hinit, ← Coro.run_bind] at hfinal
  refine ⟨{ h₁ with scr := Scram.new }, hrandom, hready₁.trans hready, hinit, hfinal, ?_⟩
  have hprefix : h₁.output.written <+: final.written := by
    rw [hfinal]
    exact (((preserves_iterate _ _).bind fun _ => hk _) { h₁ with scr := Scram.new }
      ⟨hw.2.2.1, List.prefix_rfl⟩).2
  obtain ⟨p, hp⟩ := hprefix
  have hsplit : bs = (startupOf config).wire ++ p := by
    have hwritten : h₁.output.written = h.output.written ++ (startupOf config).wire := hw.2.2.2
    rw [hwritten, List.append_assoc, hbs] at hp
    exact (List.append_cancel_left hp).symm
  have hbody : (startupOf config).body.length + 4 < 2 ^ 32 := by
    have hlength := hconfig.length_lt
    have hname : (ascii "user").length = 4 := rfl
    have hdatabase : (ascii "database").length = 8 := rfl
    have hwire := congrArg List.length (wire_startupOf config)
    have hle := length_body_le (startupOf config)
    have hmessage : (startupMessage config).length ≤
        config.user.length + config.database.length + 17 := by
      rw [startupMessage]
      split
      · simp only [List.length_append, List.length_singleton, List.length_nil]
        omega
      · simp only [List.length_append, List.length_singleton]
        omega
    rw [List.length_append, List.length_append, length_writeU32Be, length_writeU32Be] at hwire
    omega
  rw [hsplit] at hparse
  obtain ⟨j, sent', rfl, hparse'⟩ :=
    Frontend.parseStream_cons (wellFormed_startupOf hconfig.user hconfig.database) hbody hparse
  exact ⟨hw.2.2.1, p, j, sent', hp.symm, hparse', hgoal, hg.congr hw.1⟩

theorem Connects.settled (hconfig : config.Sendable)
    (hcomma : ∀ v, server.method config.user = some (.scram v) → ','.toUInt8 ∉ config.user)
    (hrandom : h.random 0 = some bytes)
    (hc : h.Connects whole server config final goal)
    (hk : ∀ w, Coro.Preserves (fun h : Handshake => HasWritten w h.conn) (k ()))
    (hfinal : final = ((init (Crypto.total pbkdf2 server.hmac server.sha256) config >>=
      k).run h).2.output) :
    Settled whole server final goal (server.verdict pbkdf2 config bytes)
      ((init (Crypto.total pbkdf2 server.hmac server.sha256) config).run h) := by
  obtain ⟨h₁, hrandom₁, hready, hinit, hfinal, hm⟩ := hc.start hconfig hk hfinal
  rw [hinit, LoginServer.verdict]
  rw [step_startup] at hm
  have hn := Nat.lt_succ_self h₁.conn.pending.length
  cases hmethod : server.method config.user with
  | none =>
    rw [hmethod] at hm
    exact settled_refusal hready hm hn
  | some method =>
    rw [hmethod] at hm
    cases method with
    | trust => exact settled_welcome hready hm hn
    | clearTextPassword expected =>
      exact settled_password hready hconfig.password hconfig.password_lt hm hn hk hfinal
    | scram v =>
      have hlength : config.user.length < 2 ^ 31 := by
        have := hconfig.length_lt
        omega
      exact settled_mechanism pbkdf2 (by rw [hrandom₁, hrandom]) (hcomma v hmethod) hlength hready hm
        hn hk hfinal

/-- Both sides come to the verdict that follows from what the server has stored: `init` ends with it,
and so does the server. A client that is let in is ready, with nothing unread. -/
theorem login (hconfig : config.Sendable)
    (hcomma : ∀ v, server.method config.user = some (.scram v) → ','.toUInt8 ∉ config.user)
    (hrandom : h.random 0 = some bytes)
    (hc : h.Connects False server config
      ((init (Crypto.total pbkdf2 server.hmac server.sha256) config).run h).2.output goal) :
    ∃ h', (init (Crypto.total pbkdf2 server.hmac server.sha256) config).run h =
        ((server.verdict pbkdf2 config bytes).outcome, h') ∧
      goal = (server.verdict pbkdf2 config bytes).phase server.first ∧
      (server.verdict pbkdf2 config bytes = .admitted →
        h'.conn.queryReady = true ∧ h'.conn.pending = []) := by
  obtain ⟨houtcome, hend⟩ := Connects.settled pbkdf2 (k := fun _ => pure ()) hconfig hcomma hrandom hc
    (fun _ => .pure _) (by rw [Coro.run_bind_pure_snd])
  refine ⟨_, Prod.ext houtcome rfl, ?_⟩
  cases hverdict : server.verdict pbkdf2 config bytes with
  | admitted =>
    rw [hverdict] at hend
    obtain ⟨hready, hm⟩ := hend
    obtain ⟨hg, hgoal⟩ := hm.stop
    exact ⟨hgoal.symm, fun _ => ⟨hready, hg.pending_nil⟩⟩
  | _ =>
    rw [hverdict] at hend
    exact ⟨hend, fun h => by cases h⟩

/-- A client that proves to know a password, against a server that proves the same. -/
theorem login_scram : ∃ (server : LoginServer Unit) (h h' : Handshake),
    server.verdict (fun _ _ _ => Vector.replicate 32 1) somebody (Vector.replicate 24 7) = .admitted ∧
    (init (Crypto.total (fun _ _ _ => Vector.replicate 32 1) server.hmac server.sha256) somebody).run h =
      (.returned (), h') ∧
    h'.conn.queryReady = true ∧ h'.conn.pending = [] := by
  let key : KeyBuffer := Vector.replicate 32 1
  let v : ScramVerifier :=
    { mechanisms := [scramSha256]
      extension := ascii "x"
      salt := [1, 2]
      iterations := 1
      storedKey := key
      serverKey := key
      offered := by decide
      no_comma := by decide
      length_lt := by decide
      iterations_lt := by decide }
  let server : LoginServer Unit :=
    { hmac := fun key _ => key
      sha256 := id
      method := fun _ => some (.scram v)
      settings := [(ascii "a", ascii "b")]
      key := [0]
      status := 'I'.toUInt8
      refusal := []
      first := ()
      serve := fun _ _ => ([], ()) }
  let nonce := base64Encode (Vector.replicate 24 7 : Vector Byte 24).toList
  let signature : Bytes := ascii "v=" ++ base64Encode key.toList
  let rs : List ServerReply := [
    ⟨.authenticationSasl [scramSha256], .of_length (by simp) (by decide +kernel)⟩,
    ⟨.authenticationSaslContinue (v.firstMsg nonce), .of_length (by simp) (by decide +kernel)⟩,
    ⟨.authenticationSaslFinal signature, .of_length (by simp) (by decide +kernel)⟩,
    ⟨.authenticationOk, .of_length (by simp) (by decide)⟩,
    ⟨.parameterStatus (ascii "a") (ascii "b"), .of_length (by simp) (by decide)⟩,
    ⟨.backendKeyData [0], .of_length (by simp) (by decide)⟩,
    ⟨.reply (.readyForQuery 'I'.toUInt8), by decide, trivial⟩]
  let h : Handshake :=
    { conn := ⟨Socket.incoming (rs.map ServerReply.frame) (by decide +kernel) [], false⟩
      scr := Scram.new
      random := fun _ => some (Vector.replicate 24 7) }
  let proof := server.proof key (authMessage v somebody.user nonce)
  let sent : List FrontendMessage := [startupOf somebody,
    .saslInitialResponse scramSha256 (ascii "n,," ++ Scram.firstMsgBare somebody.user nonce),
    .saslResponse (v.covered nonce ++ ascii ",p=" ++ base64Encode proof.toList)]
  have hwritten : ((init (Crypto.total (fun _ _ _ => Vector.replicate 32 1) server.hmac server.sha256)
      somebody).run h).2.output.written = [] ++ sent.flatMap wire := by decide +kernel
  have hparse : Frontend.parseStream [.sasl, .saslContinue] (sent.flatMap wire) = some sent := by
    decide +kernel
  have hreplies : Responder.replies server.step .startup sent = rs.map ServerReply.message := by
    decide +kernel
  have hconnects : h.Connects False server somebody
      ((init (Crypto.total (fun _ _ _ => Vector.replicate 32 1) server.hmac server.sha256)
        somebody).run h).2.output (Responder.after server.step .startup sent) :=
    ⟨rfl, fun _ => ⟨0, rfl⟩, _, sent, hwritten, hparse, rfl, rs,
      hreplies ▸ List.Carry.of_map rs, (incoming_run _ _ [] false).receives⟩
  have hconfig : somebody.Sendable :=
    ⟨by decide, by decide, by decide, by decide, by decide⟩
  have hverdict : server.verdict (fun _ _ _ => Vector.replicate 32 1) somebody
      (Vector.replicate 24 7) = .admitted := by decide +kernel
  obtain ⟨h', hrun, -, hend⟩ :=
    login (fun _ _ _ => Vector.replicate 32 1) hconfig (fun _ _ => by decide) (h := h) rfl hconnects
  rw [hverdict] at hrun hend
  obtain ⟨hready, hpending⟩ := hend rfl
  exact ⟨server, h, h', hverdict, hrun, hready, hpending⟩

/-! ### Behind a login -/

open Database in
/-- A client that knows the password is let in, and then finds what the database of the server computes
when it performs the commands one after another. -/
theorem login_session {D : Type} {db : Database D} {d : D} {server : LoginServer (Serving D)}
    {goal : LoginPhase (Serving D)} (hserve : server.serve = db.serve) (hfirst : server.first = .idle d)
    (hconfig : config.Sendable)
    (hcomma : ∀ v, server.method config.user = some (.scram v) → ','.toUInt8 ∉ config.user)
    (hrandom : h.random 0 = some bytes) (hknows : server.Knows pbkdf2 config) {cmds : List Command}
    (hcmds : ∀ cmd ∈ cmds, PgConnection.Sendable cmd)
    (hc : h.Connects True server config
      ((init (Crypto.total pbkdf2 server.hmac server.sha256) config >>= fun _ =>
        onConn (runAll cmds)).run h).2.output goal) :
    ∃ results h', (init (Crypto.total pbkdf2 server.hmac server.sha256) config >>= fun _ =>
        onConn (runAll cmds)).run h = (.returned results, h') ∧
      List.Forall₂ Shows results (db.performAll d cmds).1 ∧
      goal = .serving (.idle (db.performAll d cmds).2) ∧ h'.conn.queryReady = true ∧
      h'.conn.pending = [] := by
  obtain ⟨houtcome, hend⟩ := Connects.settled pbkdf2 (k := fun _ => onConn (runAll cmds)) hconfig hcomma
    hrandom hc (fun w h hh => preserves_runAll w hcmds h.conn hh) rfl
  rw [server.verdict_of_knows pbkdf2 hknows] at houtcome hend
  obtain ⟨hready, hm⟩ := hend
  obtain ⟨goal', rfl, hconverses⟩ := hm.converses trivial
  rw [hserve, hfirst] at hconverses
  have hrun := Coro.bind_returned (fun _ => onConn (runAll cmds)) (Prod.ext houtcome rfl)
  rw [hrun] at hconverses ⊢
  obtain ⟨results, c', hresults, hshows, hgoal, hlast⟩ := hconverses.runAll hready hcmds rfl
  exact ⟨results, _, Coro.run_focus hresults, hshows, congrArg _ hgoal, hlast⟩

open Database in
/-- A client that sends its password, counts one up, and then gets the row in pages of one. -/
theorem login_session_counter : ∃ (server : LoginServer (Serving Nat)) (h h' : Handshake)
    (results : List (List PgResult)),
    (init (Crypto.total (fun _ _ _ => Vector.replicate 32 1) server.hmac server.sha256) somebody >>=
      fun _ => onConn (runAll [.simple (ascii "u"), .paged (ascii "s") [] 1])).run h =
        (.returned results, h') ∧
    List.Forall₂ Shows results
      (counter.performAll 0 [.simple (ascii "u"), .paged (ascii "s") [] 1]).1 ∧
    h'.conn.queryReady = true ∧ h'.conn.pending = [] := by
  let server : LoginServer (Serving Nat) :=
    { hmac := fun key _ => key
      sha256 := id
      method := fun _ => some (.clearTextPassword (ascii "pw"))
      settings := []
      key := [0]
      status := 'I'.toUInt8
      refusal := []
      first := .idle 0
      serve := counter.serve }
  let rs : List ServerReply := [
    ⟨.authenticationCleartextPassword, .of_length (by simp) (by decide)⟩,
    ⟨.authenticationOk, .of_length (by simp) (by decide)⟩,
    ⟨.backendKeyData [0], .of_length (by simp) (by decide)⟩,
    ⟨.reply (.readyForQuery 'I'.toUInt8), by decide, trivial⟩,
    ⟨.reply (.commandComplete (ascii "UPDATE 1")), by decide, (by decide : 0 ∉ ascii "UPDATE 1")⟩,
    ⟨.reply (.readyForQuery 'I'.toUInt8), by decide, trivial⟩,
    ⟨.reply .parseComplete, by decide, trivial⟩,
    ⟨.reply .bindComplete, by decide, trivial⟩,
    ⟨.reply (.dataRow [none]), by decide, by decide⟩,
    ⟨.reply .portalSuspended, by decide, trivial⟩,
    ⟨.reply (.commandComplete (ascii "SELECT 1")), by decide, (by decide : 0 ∉ ascii "SELECT 1")⟩,
    ⟨.reply .closeComplete, by decide, trivial⟩,
    ⟨.reply (.readyForQuery 'I'.toUInt8), by decide, trivial⟩]
  let h : Handshake :=
    { conn := ⟨Socket.incoming (rs.map ServerReply.frame) (by decide +kernel) [], false⟩
      scr := Scram.new
      random := fun _ => some (Vector.replicate 24 7) }
  let sent : List FrontendMessage := [startupOf somebody, .password (ascii "pw"), .query (ascii "u")] ++
    prepared (ascii "s") [] ++ executing 1 ++ executing 1 ++ closing
  have hwritten : ((init (Crypto.total (fun _ _ _ => Vector.replicate 32 1) server.hmac server.sha256)
      somebody >>= fun _ => onConn (runAll [.simple (ascii "u"), .paged (ascii "s") [] 1])).run
        h).2.output.written = [] ++ sent.flatMap wire := by decide +kernel
  have hparse : Frontend.parseStream [.clearTextPassword] (sent.flatMap wire) = some sent := by
    decide +kernel
  have hreplies : Responder.replies server.step .startup sent = rs.map ServerReply.message := by
    decide +kernel
  have hconnects : h.Connects True server somebody
      ((init (Crypto.total (fun _ _ _ => Vector.replicate 32 1) server.hmac server.sha256)
        somebody >>= fun _ => onConn (runAll [.simple (ascii "u"), .paged (ascii "s") [] 1])).run
          h).2.output (Responder.after server.step .startup sent) :=
    ⟨rfl, fun _ => ⟨0, rfl⟩, _, sent, hwritten, hparse, rfl, rs,
      hreplies ▸ List.Carry.of_map rs, (incoming_run _ _ [] false).receives⟩
  have hconfig : somebody.Sendable :=
    ⟨by decide, by decide, by decide, by decide, by decide⟩
  have hserve : server.serve = counter.serve := rfl
  have hfirst : server.first = .idle 0 := rfl
  have hsimple : PgConnection.Sendable (.simple (ascii "u")) := ⟨by decide, by decide⟩
  have hpaged : PgConnection.Sendable (.paged (ascii "s") [] 1) := by
    refine ⟨⟨by decide, ?_, by decide⟩, by decide⟩
    intro a ha
    cases ha
  obtain ⟨results, h', hrun, hshows, -, hready, hpending⟩ :=
    login_session (fun _ _ _ => Vector.replicate 32 1) hserve hfirst hconfig
      (fun _ hmethod => by cases hmethod) rfl (by decide : ascii "pw" = ascii "pw")
      (List.forall_mem_cons.mpr ⟨hsimple, List.forall_mem_singleton.mpr hpaged⟩) hconnects
  exact ⟨server, h, h', results, hrun, hshows, hready, hpending⟩

end Handshake

end CppEvent
