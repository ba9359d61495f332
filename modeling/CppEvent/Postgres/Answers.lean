import CppEvent.Postgres.Authentication

/-!
# What `init` answers

What a client answers is settled by what comes to it and by its random bytes (`AuthState.answers`).
However a call of `init` leaves off, while sends succeed it has written the startup message and just
these answers (`init_wrote`): a round that does not return has met a message that is not answered, or
none that is there as a whole (`initRound_returns`), and has written nothing (`RepliesOrKeeps`).
-/

namespace CppEvent

open Coroutine FrontendMessage

/-! ## The messages of a stream -/

/-- These are taken from a stream one after the other, and behind them no further one is there as a
whole. -/
def TakenFrom (stream : Bytes) (ms : List Taken) : Prop := ∃ rest,
  stream = ms.flatMap Taken.wire ++ rest ∧ ∀ (m : Taken) (more : Bytes), rest ≠ m.wire ++ more

theorem Taken.length_wire (m : Taken) : headerSize ≤ m.wire.length := by
  rw [Taken.wire, List.length_append, m.length_header]
  omega

theorem exists_takenFrom (stream : Bytes) : ∃ ms, TakenFrom stream ms := by
  induction hn : stream.length using Nat.strong_induction_on generalizing stream with
  | _ n ih =>
    by_cases hmore : ∃ (m : Taken) (more : Bytes), stream = m.wire ++ more
    · obtain ⟨m, more, rfl⟩ := hmore
      have hlen : 5 ≤ m.wire.length := m.length_wire
      have hless : more.length < n := by
        rw [← hn, List.length_append]
        omega
      obtain ⟨ms, rest, rfl, hrest⟩ := ih more.length hless more rfl
      exact ⟨m :: ms, rest, by rw [List.flatMap_cons, List.append_assoc], hrest⟩
    · push Not at hmore
      exact ⟨[], stream, rfl, hmore⟩

theorem TakenFrom.append {ns ms : List Taken} {rest : Bytes}
    (h : TakenFrom (ns.flatMap Taken.wire ++ rest) ms) :
    ∃ ms', ms = ns ++ ms' ∧ TakenFrom rest ms' := by
  induction ns generalizing ms with
  | nil => exact ⟨ms, rfl, h⟩
  | cons n ns ih =>
    obtain ⟨end', heq, hend⟩ := h
    rw [List.flatMap_cons, List.append_assoc] at heq
    cases ms with
    | nil => exact absurd heq.symm (hend n _)
    | cons m ms =>
      rw [List.flatMap_cons, List.append_assoc] at heq
      obtain ⟨rfl, htail⟩ := Taken.wire_unique heq
      obtain ⟨ms', rfl, h'⟩ := ih ⟨end', htail, hend⟩
      exact ⟨ms', rfl, h'⟩

theorem TakenFrom.unique {stream : Bytes} {ms ms' : List Taken} (h : TakenFrom stream ms)
    (h' : TakenFrom stream ms') : ms' = ms := by
  obtain ⟨rest, rfl, hrest⟩ := h
  obtain ⟨more, rfl, left, hleft, -⟩ := h'.append
  cases more with
  | nil => exact List.append_nil ms
  | cons m more =>
    rw [List.flatMap_cons, List.append_assoc] at hleft
    exact absurd hleft (hrest m _)

/-- The answers to messages up to ReadyForQuery, or up to one that makes `init` throw. -/
def AuthState.answers (crypt : Crypto) (config : PgConfig) :
    AuthState → List Taken → List FrontendMessage
  | _, [] => []
  | v, m :: ms =>
      match v.answer crypt config m with
      | none => []
      | some (as, v') =>
          as ++ if m.type = .readyForQuery then [] else v'.answers crypt config ms

namespace AuthState

variable {crypt : Crypto} {config : PgConfig}

theorem answers_notices {ns : List Taken} (hns : ∀ n ∈ ns, n.type = .noticeResponse) (v : AuthState)
    (ms : List Taken) : v.answers crypt config (ns ++ ms) = v.answers crypt config ms := by
  induction ns with
  | nil => rfl
  | cons n ns ih =>
    obtain ⟨hn, hns⟩ := List.forall_mem_cons.mp hns
    have hanswer : v.answer crypt config n = some ([], v) := by simp only [answer, hn]
    rw [List.cons_append, answers, hanswer]
    simp only [hn, List.nil_append]
    exact ih hns

theorem answers_cons {v v' : AuthState} {m : Taken} {as : List FrontendMessage}
    (h : v.answer crypt config m = some (as, v')) (ms : List Taken) :
    v.answers crypt config (m :: ms) =
      as ++ if m.type = .readyForQuery then [] else v'.answers crypt config ms := by
  rw [answers, h]

theorem answers_cons_none {v : AuthState} {m : Taken} (h : v.answer crypt config m = none)
    (ms : List Taken) : v.answers crypt config (m :: ms) = [] := by
  rw [answers, h]

theorem wellFormed_answer {v v' : AuthState} {m : Taken} {as : List FrontendMessage}
    (h : v.answer crypt config m = some (as, v')) (hpassword : 0 ∉ config.password) :
    ∀ a ∈ as, a.WellFormed ∧ a.isStartup = false := by
  have hmechanism : 0 ∉ Handshake.scramSha256 := by decide
  rcases answer_cases h with ⟨-, _, -, rfl, -⟩ | ⟨-, -, _, rfl, -⟩ | ⟨-, -, rfl | rfl, -⟩
  · exact List.forall_mem_singleton.mpr ⟨hmechanism, rfl⟩
  · exact List.forall_mem_singleton.mpr ⟨trivial, rfl⟩
  · exact fun a ha => by cases ha
  · exact List.forall_mem_singleton.mpr ⟨hpassword, rfl⟩

variable (crypt) in
theorem wellFormed_answers (hpassword : 0 ∉ config.password) (v : AuthState) (ms : List Taken) :
    ∀ a ∈ v.answers crypt config ms, a.WellFormed ∧ a.isStartup = false := by
  induction ms generalizing v with
  | nil => exact fun a ha => by cases ha
  | cons m ms ih =>
    cases hanswer : v.answer crypt config m with
    | none =>
      rw [answers_cons_none hanswer]
      exact fun a ha => by cases ha
    | some answered =>
      obtain ⟨as, v'⟩ := answered
      rw [answers_cons hanswer]
      intro a ha
      rcases List.mem_append.mp ha with ha | ha
      · exact wellFormed_answer hanswer hpassword a ha
      · split at ha
        · cases ha
        · exact ih v' a ha

end AuthState

/-! ## A message that has an answer -/

theorem Frame.exists_header {header : Bytes} (h : header.length = headerSize) :
    ∃ f : Frame, f.header = header := by
  match header, h with
  | [kind, b₀, b₁, b₂, b₃], _ =>
    exact ⟨{ kind := kind
             length := readU32Be b₀ b₁ b₂ b₃
             payload := List.replicate (readU32Be b₀ b₁ b₂ b₃ - 4) 0
             length_lt := readU32Be_lt b₀ b₁ b₂ b₃
             length_payload := List.length_replicate },
      by rw [Frame.header, writeU32Be_readU32Be]⟩

namespace Handshake

variable {crypt : Crypto} {config : PgConfig} {h : Handshake} {α β : Type}

theorem exists_skipped {ns : List Taken} (hns : ∀ n ∈ ns, n.type = .noticeResponse) :
    ∃ skipped : List PgConnection.Skipped, (∀ p ∈ skipped, p.IsNotice) ∧
      skipped.flatMap PgConnection.Skipped.bytes = ns.flatMap Taken.wire := by
  induction ns with
  | nil => exact ⟨[], by simp, rfl⟩
  | cons n ns ih =>
    obtain ⟨hn, hns⟩ := List.forall_mem_cons.mp hns
    obtain ⟨skipped, hskipped, hbytes⟩ := ih hns
    obtain ⟨f, hf⟩ := Frame.exists_header n.length_header
    have hinfo : decodeHeader n.header = ⟨f.type, f.size⟩ := by
      rw [← hf, Frame.decodeHeader_header]
    have hlen := Taken.length_whole (.inl hn)
    rw [Taken.type, hinfo] at hn
    rw [Taken.size, hinfo] at hlen
    have hnotice : PgConnection.Skipped.IsNotice (f, n.data) := ⟨hn, Int.ofNat.inj hlen⟩
    have hwire : PgConnection.Skipped.bytes (f, n.data) = n.wire := by
      rw [Taken.wire, ← hf]
      rfl
    exact ⟨(f, n.data) :: skipped, List.forall_mem_cons.mpr ⟨hnotice, hskipped⟩,
      by rw [List.flatMap_cons, List.flatMap_cons, hwire, hbytes]⟩

theorem getResponseInfo_returns {ns : List Taken} (hns : ∀ n ∈ ns, n.type = .noticeResponse)
    {m : Taken} (hm : m.type ≠ .noticeResponse) {rest : Bytes}
    (hp : h.conn.pending = ns.flatMap Taken.wire ++ (m.header ++ rest)) :
    ∃ c : PgConnection, (onConn (PgConnection.getResponseInfo true)).run h =
        (.returned (decodeHeader m.header), { h with conn := c }) ∧
      h.conn.Consumes (ns.flatMap Taken.wire ++ m.header) c := by
  obtain ⟨skipped, hskipped, hbytes⟩ := exists_skipped hns
  obtain ⟨f, hf⟩ := Frame.exists_header m.length_header
  have hinfo : decodeHeader m.header = ⟨f.type, f.size⟩ := by
    rw [← hf, Frame.decodeHeader_header]
  rw [Taken.type, hinfo] at hm
  dsimp only at hm
  rw [← hbytes, ← hf] at hp ⊢
  obtain ⟨c, hrun, hc⟩ := PgConnection.getResponseInfo_skipped skipped hskipped f hm hp
  rw [Frame.decodeHeader_header]
  exact ⟨c, Coro.run_focus hrun, hc⟩

variable (config) in
/-- Where there are random bytes and sends succeed, a list with the mechanism is answered with it. -/
theorem respondMechanisms_found {mechanisms : Bytes} (hfound : scramSha256 <:+: mechanisms)
    {bytes : Vector Byte 24} (hrandom : h.random 0 = some bytes) (hsends : h.output.SendsSucceed) :
    ∃ h', (respondMechanisms config mechanisms).run h = (.returned (), h') ∧
      h.output.Wrote (saslInitialResponse scramSha256
        (ascii "n,," ++ Scram.firstMsgBare config.user (base64Encode bytes.toList))).wire
          h'.output := by
  obtain ⟨h', hrun, hw⟩ := sends_saslInitialResponse
    (ascii "n,," ++ Scram.firstMsgBare config.user (base64Encode bytes.toList))
    { h with
      scr := { h.scr with
        clientNonce := base64Encode bytes.toList
        clientFirstMsgBare := Scram.firstMsgBare config.user (base64Encode bytes.toList) }
      random := fun i => h.random (i + 1) } hsends
  refine ⟨h', ?_, hw.2.2⟩
  have hnonce : generateRandomString.run h = (.returned (base64Encode bytes.toList),
      { h with random := fun i => h.random (i + 1) }) := by
    simp only [generateRandomString, hrandom]
  rw [respondMechanisms, if_neg (not_not.mpr hfound), Coro.bind_returned _ hnonce]
  exact hrun

theorem respondServerFirst_resolved {serverFirst clientFinal : Bytes} {scr : Scram}
    (hexchange : (Scram.resolveServerFirstMsg serverFirst >>= fun _ =>
      Scram.generateClientFinalMsg crypt config.password).run h.scr = (.returned clientFinal, scr))
    (hsends : h.output.SendsSucceed) :
    ∃ h', (respondServerFirst crypt config serverFirst).run h = (.returned (), h') := by
  obtain ⟨_, s₁, hresolve, hfinal⟩ := Coro.returned_of_bind hexchange
  have hresolve' : (onScram (Scram.resolveServerFirstMsg serverFirst)).run h =
      (.returned (), { h with scr := s₁ }) := Coro.run_focus hresolve
  have hfinal' : (onScram (Scram.generateClientFinalMsg crypt config.password)).run
      { h with scr := s₁ } = (.returned clientFinal, { h with scr := scr }) := Coro.run_focus hfinal
  obtain ⟨h', hrun, -⟩ := sends_respond clientFinal { h with scr := scr } hsends
  exact ⟨h', by rw [respondServerFirst, Coro.bind_returned _ hresolve', Coro.bind_returned _ hfinal',
    hrun]⟩

/-- A request with an answer is handled without an exception. -/
theorem handleAuth_returns {m : Taken} (htype : m.type = .authentication) {rest : Bytes}
    (hsends : h.output.SendsSucceed) (hp : h.conn.pending = m.data ++ rest)
    {as : List FrontendMessage} {v' : AuthState}
    (hanswer : h.memory.answer crypt config m = some (as, v')) :
    ∃ h', (handleAuth crypt config (decodeHeader m.header)).run h = (.returned (), h') := by
  have h4 : 4 ≤ m.data.length := by
    rw [m.length_data, takenSize_authentication htype]
    exact le_requestSize _ _
  obtain ⟨typeData, htake⟩ : ∃ typeData, typeData = m.data.take 4 := ⟨_, rfl⟩
  have hlen : typeData.length = 4 := by
    rw [htake, List.length_take]
    omega
  have hdata : m.data = typeData ++ m.authData := by rw [htake, Taken.authData, List.take_append_drop]
  have hcode : authCode m.data = authCode typeData := by rw [hdata, authCode_append hlen.ge]
  rw [hdata, List.append_assoc] at hp
  obtain ⟨c, hread, hc⟩ := readInto_run hp
  have hout : c.output = h.output := hc.1.2.1
  rw [hlen] at hread
  rw [handleAuth_eq, Coro.bind_returned _ hread]
  -- behind the kind of a message of SASL the rest of it is next
  have hrest (hkind : AuthType.ofCode (authCode m.data) = .sasl ∨
      AuthType.ofCode (authCode m.data) = .saslContinue ∨
      AuthType.ofCode (authCode m.data) = .saslFinal) (hsize : 4 ≤ m.size) : ∃ c' : PgConnection,
      (onSock (Socket.read ((decodeHeader m.header).size - 4) true)).run { h with conn := c } =
        (.returned m.authData, { h with conn := c' }) ∧ c'.output.SendsSucceed := by
    have hauthData : (m.authData.length : Int) = (decodeHeader m.header).size - 4 :=
      Taken.length_authData htype hkind hsize
    obtain ⟨c', hread', hc'⟩ := read_run (h := { h with conn := c }) (hc.rest_eq hp)
    have hout' : c'.output = c.output := hc'.1.2.1
    rw [hauthData] at hread'
    exact ⟨c', hread', hout' ▸ hout ▸ hsends⟩
  rw [AuthState.answer_authentication htype, hcode] at hanswer
  cases hkind : AuthType.ofCode (authCode typeData) with
  | ok => exact ⟨_, rfl⟩
  | clearTextPassword =>
    have hsends' : c.output.SendsSucceed := hout ▸ hsends
    obtain ⟨h', hrun, -⟩ := sends_respond (config.password ++ [0]) { h with conn := c } hsends'
    exact ⟨h', hrun⟩
  | sasl =>
    rw [hkind, AuthState.answerRequest] at hanswer
    split at hanswer
    · rename_i hsasl
      obtain ⟨bytes, hbytes, -⟩ := Option.map_eq_some_iff.mp hanswer
      obtain ⟨c', hread', hsends'⟩ := hrest (.inl ((congrArg _ hcode).trans hkind)) hsasl.1
      obtain ⟨h', hrun, -⟩ := respondMechanisms_found config (h := { h with conn := c' }) hsasl.2
        hbytes hsends'
      exact ⟨h', by rw [authSwitch, Coro.bind_returned _ hread', hrun]⟩
    · cases hanswer
  | saslContinue =>
    rw [hkind, AuthState.answerRequest] at hanswer
    split at hanswer
    · rename_i hsize
      obtain ⟨c', hread', hsends'⟩ := hrest (.inr (.inl ((congrArg _ hcode).trans hkind))) hsize
      split at hanswer
      · rename_i clientFinal scr hexchange
        obtain ⟨h', hrun⟩ := respondServerFirst_resolved (h := { h with conn := c' }) hexchange
          hsends'
        exact ⟨h', by rw [authSwitch, Coro.bind_returned _ hread', hrun]⟩
      · cases hanswer
    · cases hanswer
  | saslFinal =>
    rw [hkind, AuthState.answerRequest] at hanswer
    split at hanswer
    · rename_i hsasl
      obtain ⟨c', hread', -⟩ := hrest (.inr (.inr ((congrArg _ hcode).trans hkind))) hsasl.1
      have hverify : (Handshake.scr { h with conn := c' }).verifyServerFinalMsg m.authData = true :=
        hsasl.2
      exact ⟨_, by rw [authSwitch, Coro.bind_returned _ hread', Coro.run_get_bind, if_pos hverify,
        Coro.run_pure]⟩
    · cases hanswer
  | other code =>
    rw [hkind, AuthState.answerRequest] at hanswer
    cases hanswer

theorem initSwitch_returns {m : Taken} {rest : Bytes} (hnotice : m.type ≠ .noticeResponse)
    (hsends : h.output.SendsSucceed) (hp : h.conn.pending = m.data ++ rest)
    {as : List FrontendMessage} {v' : AuthState}
    (hanswer : h.memory.answer crypt config m = some (as, v')) :
    ∃ h', (initSwitch crypt config (decodeHeader m.header)).run h = (.returned (), h') := by
  have hskip (hsize : (m.data.length : Int) = m.size) : ∃ c : PgConnection,
      (onConn (PgConnection.skip (decodeHeader m.header).size)).run h =
        (.returned (decodeHeader m.header).size, { h with conn := c }) := by
    obtain ⟨c, hrun, -⟩ := PgConnection.skip_run hp
    rw [hsize, Taken.size] at hrun
    exact ⟨c, Coro.run_focus hrun⟩
  cases htype : m.type with
  | authentication =>
    obtain ⟨h', hrun⟩ := handleAuth_returns htype hsends hp hanswer
    have htype' : (decodeHeader m.header).type = .authentication := htype
    exact ⟨h', by simpa only [initSwitch, htype'] using hrun⟩
  | backendKeyData | parameterStatus =>
    obtain ⟨c, hrun⟩ := hskip (Taken.length_whole (by simp [htype]))
    have htype' : (decodeHeader m.header).type = _ := htype
    simp only [initSwitch, htype']
    exact ⟨_, Coro.bind_returned _ hrun⟩
  | readyForQuery =>
    obtain ⟨c, hrun⟩ := hskip (Taken.length_whole (by simp [htype]))
    have htype' : (decodeHeader m.header).type = _ := htype
    simp only [initSwitch, htype']
    exact ⟨_, Coro.bind_returned _ hrun⟩
  | noticeResponse => exact absurd htype hnotice
  | _ => simp only [AuthState.answer, htype, reduceCtorEq] at hanswer

theorem initRound_returns {ns : List Taken} (hns : ∀ n ∈ ns, n.type = .noticeResponse) {m : Taken}
    (hnotice : m.type ≠ .noticeResponse) {rest : Bytes} (hready : h.conn.queryReady = false)
    (hsends : h.output.SendsSucceed)
    (hp : h.conn.pending = ns.flatMap Taken.wire ++ (m.wire ++ rest))
    {as : List FrontendMessage} {v' : AuthState}
    (hanswer : h.memory.answer crypt config m = some (as, v')) :
    ∃ r h', (initRound crypt config ()).run h = (.returned r, h') := by
  rw [Taken.wire, List.append_assoc] at hp
  obtain ⟨c, hinfo, hc⟩ := getResponseInfo_returns hns hnotice hp
  have hout : c.output = h.output := hc.1.2.1
  have hsends' : c.output.SendsSucceed := hout ▸ hsends
  obtain ⟨h', hswitch⟩ := initSwitch_returns (h := { h with conn := c }) hnotice hsends'
    (hc.rest_eq (by rw [hp, List.append_assoc])) hanswer
  exact ⟨.inl (), h', by rw [initRound, Coro.run_get_bind, if_neg (by simp [hready]),
    Coro.bind_returned _ hinfo, Coro.bind_returned _ hswitch, Coro.run_pure]⟩

/-! ## Nothing else is written -/

/-- While sends succeed, `t` returns or has written nothing. -/
def RepliesOrKeeps (t : Coro Handshake Exn α) : Prop := ∀ h : Handshake, h.output.SendsSucceed →
  (∃ a h', t.run h = (.returned a, h')) ∨ (t.run h).2.output = h.output

namespace RepliesOrKeeps

theorem of_keeps {t : Coro Handshake Exn α} (ht : Coro.Keeps output t) : RepliesOrKeeps t :=
  fun h _ => .inr (ht h)

theorem of_sends {t : Coro Handshake Exn Unit} {bs : Bytes}
    (ht : Sends (fun h : Handshake => h.conn.sock) t bs) : RepliesOrKeeps t := by
  intro h hsends
  obtain ⟨h', hrun, -⟩ := ht h hsends
  exact .inl ⟨(), h', hrun⟩

theorem bind {t : Coro Handshake Exn α} {f : α → Coro Handshake Exn β} (ht : Coro.Keeps output t)
    (hf : ∀ a, RepliesOrKeeps (f a)) : RepliesOrKeeps (t >>= f) := by
  intro h hsends
  have hkeeps := ht h
  rcases Coro.returned_or t h with ⟨a, h₁, hrun⟩ | hno
  · rw [hrun] at hkeeps
    rw [Coro.bind_returned _ hrun]
    rcases hf a h₁ (hkeeps ▸ hsends) with hreturned | hkeeps₁
    · exact .inl hreturned
    · exact .inr (hkeeps₁.trans hkeeps)
  · rw [(Coro.bind_of_not_returned f hno).1]
    exact .inr hkeeps

theorem bind_pure {t : Coro Handshake Exn α} (ht : RepliesOrKeeps t) (b : β) :
    RepliesOrKeeps (t >>= fun _ => pure b) := by
  intro h hsends
  rw [Coro.run_bind_pure_snd]
  rcases ht h hsends with ⟨a, h', hrun⟩ | hkeeps
  · exact .inl ⟨b, h', Coro.bind_returned _ hrun⟩
  · exact .inr hkeeps

theorem ite {c : Prop} [Decidable c] {t u : Coro Handshake Exn α} (ht : RepliesOrKeeps t)
    (hu : RepliesOrKeeps u) : RepliesOrKeeps (if c then t else u) := by
  split
  · exact ht
  · exact hu

theorem respondMechanisms (mechanisms : Bytes) :
    RepliesOrKeeps (respondMechanisms config mechanisms) := by
  refine .ite (.of_keeps (.fail _)) (.bind (fun h => ?_) fun cNonce =>
    .bind (keeps_onScram _) fun clientFirstMsg => .of_sends (sends_saslInitialResponse _))
  rw [generateRandomString]
  dsimp only
  cases h.random 0 <;> rfl

theorem handleAuth (info : ResponseInfo) : RepliesOrKeeps (handleAuth crypt config info) := by
  rw [handleAuth_eq]
  refine .bind (keeps_onConn (PgConnection.keeps_onInput PgConnection.output_isAside _))
    fun typeData => ?_
  cases AuthType.ofCode (authCode typeData) with
  | ok => exact .of_keeps (.pure _)
  | clearTextPassword => exact .of_sends (sends_respond _)
  | sasl => exact .bind (keeps_read _) respondMechanisms
  | saslContinue =>
    exact .bind (keeps_read _) fun _ => .bind (keeps_onScram _) fun _ =>
      .bind (keeps_onScram _) fun _ => .of_sends (sends_respond _)
  | saslFinal =>
    exact .of_keeps ((keeps_read _).bind fun _ => Coro.Keeps.get.bind fun _ =>
      .ite (.pure _) (.fail _))
  | other code => exact .of_keeps (.fail _)

theorem initSwitch (info : ResponseInfo) : RepliesOrKeeps (initSwitch crypt config info) := by
  have hskip (size : Int) : Coro.Keeps output (onConn (PgConnection.skip size)) :=
    keeps_onConn (PgConnection.keeps_skip PgConnection.output_isAside size)
  rw [Handshake.initSwitch]
  split
  · exact .of_keeps (.fail _)
  · exact .of_keeps (.fail _)
  · exact handleAuth info
  · exact .of_keeps ((hskip _).bind fun _ => .pure _)
  · exact .of_keeps ((hskip _).bind fun _ => .pure _)
  · exact .of_keeps ((hskip _).bind fun _ => keeps_onConn (PgConnection.keeps_setQueryReady true))
  · exact .of_keeps (.fail _)

variable (crypt config) in
theorem initRound : RepliesOrKeeps (initRound crypt config ()) :=
  .bind .get fun _ => .ite (.of_keeps (.pure _)) (.bind (keeps_onConn
    (PgConnection.keeps_getResponseInfo PgConnection.output_isAside)) fun info =>
      (initSwitch info).bind_pure _)

end RepliesOrKeeps

/-! ## Everything that is written -/

theorem exists_notices (ms : List Taken) : ∃ ns ms', ms = ns ++ ms' ∧
    (∀ n ∈ ns, n.type = .noticeResponse) ∧ ∀ m ∈ ms'.head?, m.type ≠ .noticeResponse := by
  induction ms with
  | nil => exact ⟨[], [], rfl, by simp, by simp⟩
  | cons m ms ih =>
    by_cases hm : m.type = .noticeResponse
    · obtain ⟨ns, ms', rfl, hns, hhead⟩ := ih
      exact ⟨m :: ns, ms', rfl, List.forall_mem_cons.mpr ⟨hm, hns⟩, hhead⟩
    · exact ⟨[], m :: ms, rfl, by simp, by simpa using hm⟩

theorem answers_of_not_returned {ms : List Taken} (hready : h.conn.queryReady = false)
    (hsends : h.output.SendsSucceed) (hms : TakenFrom h.conn.pending ms)
    (hno : ∀ r, ((initRound crypt config ()).run h).1 ≠ .returned r) :
    h.memory.answers crypt config ms = [] := by
  obtain ⟨rest, hpending, -⟩ := hms
  obtain ⟨ns, ms', rfl, hns, hhead⟩ := exists_notices ms
  rw [AuthState.answers_notices hns]
  cases ms' with
  | nil => rfl
  | cons m ms' =>
    cases hanswer : h.memory.answer crypt config m with
    | none => exact AuthState.answers_cons_none hanswer ms'
    | some answered =>
      obtain ⟨as, v'⟩ := answered
      rw [List.flatMap_append, List.flatMap_cons, List.append_assoc, List.append_assoc] at hpending
      obtain ⟨r, h', hrun⟩ :=
        initRound_returns hns (hhead m rfl) hready hsends hpending hanswer
      exact absurd (congrArg Prod.fst hrun) (hno r)

variable (crypt config) in
theorem initRound_wrote (hsends : h.output.SendsSucceed) :
    ∃ bs, h.output.Wrote bs ((initRound crypt config ()).run h).2.output := by
  by_cases hready : h.conn.queryReady = true
  · refine ⟨[], ?_⟩
    rw [initRound, Coro.run_get_bind, if_pos hready, Coro.run_pure]
    exact .refl hsends
  · rcases RepliesOrKeeps.initRound crypt config h hsends with ⟨r, h', hrun⟩ | hkeeps
    · obtain ⟨-, ns, m, -, -, -, ⟨as, -, hwrote⟩, -⟩ :=
        initRound_returned (Bool.not_eq_true _ ▸ hready) hrun
      rw [hrun]
      exact ⟨_, hwrote hsends⟩
    · rw [hkeeps]
      exact ⟨[], .refl hsends⟩

/-- However the rounds leave off, they have written the answers. -/
theorem iterate_initRound_wrote {n : Nat} {ms : List Taken} (hn : h.conn.pending.length < n)
    (hready : h.conn.queryReady = false) (hsends : h.output.SendsSucceed)
    (hms : TakenFrom h.conn.pending ms) :
    h.output.Wrote ((h.memory.answers crypt config ms).flatMap wire)
      ((Coro.iterate (initRound crypt config) n ()).run h).2.output := by
  induction n generalizing h ms with
  | zero => exact absurd hn (Nat.not_lt_zero _)
  | succ n ih =>
    rcases Coro.returned_or (initRound crypt config ()) h with ⟨r, h₁, hround⟩ | hno
    · obtain ⟨rfl, ns, m, hns, -, hpending, ⟨as, hanswer, hwrote⟩, hiff⟩ :=
        initRound_returned hready hround
      rw [hpending] at hms
      obtain ⟨ms', rfl, hms'⟩ := hms.append
      have hlt : h₁.conn.pending.length < n := by
        have hlen : 5 ≤ m.wire.length := m.length_wire
        have := congrArg List.length hpending
        rw [List.flatMap_append, List.flatMap_singleton, List.length_append, List.length_append]
          at this
        omega
      rw [Coro.iterate_inl hround, List.append_assoc, List.singleton_append,
        AuthState.answers_notices hns, AuthState.answers_cons hanswer, List.flatMap_append]
      refine (hwrote hsends).trans ?_
      by_cases hz : m.type = .readyForQuery
      -- the next round ends the loop
      · have hend : (initRound crypt config ()).run h₁ = (.returned (.inr ()), h₁) := by
          rw [initRound, Coro.run_get_bind, if_pos (hiff.mpr hz), Coro.run_pure]
        obtain ⟨n, rfl⟩ := Nat.exists_eq_succ_of_ne_zero (Nat.ne_zero_of_lt hlt)
        rw [if_pos hz, Coro.iterate_inr hend]
        exact .refl (hwrote hsends).1
      · rw [if_neg hz]
        exact ih hlt (by rw [← Bool.not_eq_true, hiff]; exact hz) (hwrote hsends).1 hms'
    · rw [answers_of_not_returned hready hsends hms hno, Coro.iterate,
        (Coro.bind_of_not_returned _ hno).1]
      rcases RepliesOrKeeps.initRound crypt config h hsends with ⟨r, h', hrun⟩ | hkeeps
      · exact absurd (congrArg Prod.fst hrun) (hno r)
      · rw [hkeeps]
        exact .refl hsends

variable (crypt config) in
/-- `init` writes the startup message and the answers, however it leaves off. -/
theorem init_wrote {ms : List Taken} (hready : h.conn.queryReady = false)
    (hsends : h.output.SendsSucceed) (hms : TakenFrom h.conn.pending ms) :
    h.output.Wrote ((startupOf config ::
        AuthState.answers crypt config ⟨Scram.new, h.random⟩ ms).flatMap wire)
      ((init crypt config).run h).2.output := by
  have hstartup : Sends (fun h : Handshake => h.conn.sock) (do
      onSock (Socket.write
        (writeU32Be (8 + (startupMessage config).length) ++ writeU32Be (3 * 2 ^ 16 + 0)))
      onSock (Socket.write (startupMessage config))
      onSock Socket.flush) (startupOf config).wire :=
    ((sends_write _).bind ((sends_write _).bind sends_flush)).of_eq
      (by rw [wire_startupOf, List.append_nil])
  have hkeeps : Coro.Keeps (fun h : Handshake => (h.conn.queryReady, h.random)) (do
      onSock (Socket.write
        (writeU32Be (8 + (startupMessage config).length) ++ writeU32Be (3 * 2 ^ 16 + 0)))
      onSock (Socket.write (startupMessage config))
      onSock Socket.flush) :=
    .bind (fun _ => rfl) fun _ => .bind (fun _ => rfl) fun _ => fun _ => rfl
  obtain ⟨h₁, hrun, hw⟩ := hstartup h hsends
  have haside := hkeeps h
  rw [hrun] at haside
  obtain ⟨hready₁, hrandom⟩ := Prod.mk.inj haside
  have hpending : h₁.conn.pending = h.conn.pending := congrArg Input.pending hw.1
  rw [init_eq, Coro.bind_returned _ hrun, List.flatMap_cons]
  refine Output.Wrote.trans hw.2.2 ?_
  rw [← hrandom]
  exact iterate_initRound_wrote (h := { h₁ with scr := Scram.new }) (Nat.lt_succ_self _)
    (hready₁.trans hready) hw.2.2.1 (hpending ▸ hms)

end Handshake

end CppEvent
