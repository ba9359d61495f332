import CppEvent.Postgres.Answers

/-!
# The frontend's stream

A connection from `init` on, with any calls after it, however they leave off: what was written is the
startup message, the answers to the authentication requests, and the messages of the calls
(`frontend_stream`).
-/

namespace CppEvent

open Coroutine Transition FrontendMessage

namespace PgConnection

variable {α : Type} {c : PgConnection}

/-! ## Calls -/

theorem wrote_of_sends {t : Coro PgConnection Exn Unit} {f : Unit → Coro PgConnection Exn α}
    {bs : Bytes} (ht : Sends sock t bs) (hf : Coro.Keeps output (f ()))
    (hc : c.output.SendsSucceed) : c.output.Wrote bs ((t >>= f).run c).2.output := by
  obtain ⟨c', hrun, hw⟩ := ht c hc
  rw [Coro.bind_returned _ hrun, hf c']
  exact hw.2.2

theorem closeSync_wrote (hc : c.output.SendsSucceed) :
    c.output.Wrote (closing.flatMap wire) (closeSync.run c).2.output := by
  rw [closeSync_eq]
  exact wrote_of_sends sends_close keeps_receiveClose hc

theorem query_wrote (hc : c.output.SendsSucceed) (q : Bytes) :
    c.output.Wrote (if c.queryReady then (FrontendMessage.query q).wire else [])
      ((query q).run c).2.output := by
  rw [query, Coro.run_get_bind]
  by_cases hready : c.queryReady
  · rw [if_pos hready, if_neg (not_not.mpr hready)]
    exact wrote_of_sends (sends_query q) ((keeps_setQueryReady false).bind fun _ =>
      keeps_receiveQuery.bind fun _ => .pure _) hc
  · rw [if_neg hready, if_pos hready]
    exact .refl hc

theorem prepareQuery_wrote (hc : c.output.SendsSucceed) (q : Bytes) {params : PgParams}
    {values : List (Option Bytes)} (hparams : params.buffer = counted encodeValue values) :
    c.output.Wrote (if c.queryReady then (prepared q values).flatMap wire else [])
      ((prepareQuery q params).run c).2.output := by
  rw [prepareQuery, Coro.run_get_bind]
  by_cases hready : c.queryReady
  · rw [if_pos hready, if_neg (not_not.mpr hready)]
    exact wrote_of_sends (sends_prepare q hparams) (keeps_setQueryReady false) hc
  · rw [if_neg hready, if_pos hready]
    exact .refl hc

/-- Whether the portal has been closed by the end of `execute` shows in the result. -/
theorem execute_wrote (hc : c.output.SendsSucceed) (maxRows : Nat) : ∃ complete : Bool,
    c.output.Wrote ((executing maxRows ++ if complete then closing else []).flatMap wire)
        ((execute maxRows).run c).2.output ∧
      ∀ r, ((execute maxRows).run c).1 = .returned r → (complete = true ↔ r.type ≠ .suspended) := by
  obtain ⟨c₁, hrun, hw⟩ := sends_execute maxRows c hc
  have hw₁ : c.output.Wrote ((executing maxRows).flatMap wire) c₁.output := hw.2.2
  rw [execute_eq, Coro.bind_returned _ hrun]
  have hkeeps := keeps_receiveExecute output_isAside c₁
  rcases Coro.returned_or receiveExecute c₁ with ⟨r, c₂, hreceive⟩ | hno
  · have hensures := (ensures_receiveExecute _ _ _ hreceive).1
    rw [hreceive] at hkeeps
    rw [Coro.bind_returned _ hreceive, finishExecute]
    refine ⟨r.2, ?_, fun result hresult => ?_⟩
    · rw [List.flatMap_append]
      refine hw₁.trans ?_
      rw [← hkeeps]
      cases r.2 with
      | true =>
        rw [if_pos rfl, if_pos rfl, Coro.run_bind_pure_snd]
        exact closeSync_wrote (hkeeps ▸ hw₁.1)
      | false => exact .refl (hkeeps ▸ hw₁.1)
    · have hr : r.1 = result := by
        cases hcomplete : r.2 with
        | true =>
          rw [hcomplete, if_pos rfl] at hresult
          obtain ⟨_, _, -, hpure⟩ := Coro.returned_of_bind (Prod.ext hresult rfl)
          exact Outcome.returned.inj (Prod.mk.inj hpure).1
        | false =>
          rw [hcomplete] at hresult
          exact Outcome.returned.inj hresult
      rwa [← hr]
  · obtain ⟨hstate, houtcome⟩ := Coro.bind_of_not_returned finishExecute hno
    refine ⟨false, ?_, fun r hr => absurd hr (houtcome r)⟩
    rw [hstate, hkeeps, if_neg Bool.false_ne_true, List.append_nil]
    exact hw₁

end PgConnection

/-! ## Sequences of calls -/

namespace PgConnection

/-- What a client calls on a connection, with the arguments of `store` for the parameters. -/
inductive Call where
  | query (q : Bytes)
  | prepareQuery (q : Bytes) (stores : List (StoreArg × List StoreArg))
  | execute (maxRows : Nat)
  | closeSync

namespace Call

def run : Call → Coro PgConnection Exn (Option PgResult)
  | query q => do
      let _ ← PgConnection.query q
      pure none
  | prepareQuery q stores => do
      PgConnection.prepareQuery q (PgParams.new.storeCalls stores).1
      pure none
  | execute maxRows => do
      let result ← PgConnection.execute maxRows
      pure (some result)
  | closeSync => do
      PgConnection.closeSync
      pure none

/-- Texts have no NUL, and numbers and counts are in their ranges. -/
def WellFormed : Call → Prop
  | query q => 0 ∉ q
  | prepareQuery q stores => 0 ∉ q ∧ (∀ a ∈ PgParams.stored stores, a.Holds) ∧
      (PgParams.stored stores).length ≤ 65535
  | execute maxRows => maxRows < 2 ^ 31
  | closeSync => True

end Call

/-- A call that left off, with the flag that it found. -/
structure Ended where
  call : Call
  ready : Bool
  outcome : Outcome Exn (Option PgResult)

/-- The messages that a call sends: none if it is turned away, and those of `close_sync` at the end of
an `execute` that returns anything but a suspended result. -/
def Ended.Intends (e : Ended) (ms : List FrontendMessage) : Prop :=
  match e.call with
  | .query q => ms = if e.ready then [.query q] else []
  | .prepareQuery q stores =>
      ms = if e.ready then prepared q ((PgParams.stored stores).map StoreArg.content) else []
  | .execute maxRows => ∃ complete : Bool, ms = executing maxRows ++ (if complete then closing else []) ∧
      ∀ r, e.outcome = .returned (some r) → (complete = true ↔ r.type ≠ .suspended)
  | .closeSync => ms = closing

/-- A call of the client, however it leaves off short of undefined behaviour. -/
def Calls (c : PgConnection) (e : Ended) (c' : PgConnection) : Prop :=
  e.ready = c.queryReady ∧ e.call.run.run c = (e.outcome, c') ∧ e.outcome ≠ .undefined

theorem buffer_storeCalls {stores : List (StoreArg × List StoreArg)}
    (h : ∀ a ∈ PgParams.stored stores, a.InRange) :
    (PgParams.new.storeCalls stores).1.buffer =
      counted encodeValue ((PgParams.stored stores).map StoreArg.content) := by
  obtain ⟨p, hrun, hcount, hholds⟩ := PgParams.storeCalls_run stores
    (show PgParams.new.Holds [] from rfl) h
  have hentry : StoreArg.entry = fun a => encodeValue a.content := by
    funext a
    rw [StoreArg.entry]
    cases a.content <;> rfl
  rw [hrun, hholds, hcount, counted, List.length_map, List.flatMap_map, hentry]
  simp only [PgParams.new, Nat.zero_add, List.nil_append]

/-- A call writes the messages that it is to send, whole. -/
theorem calls_wrote {c c' : PgConnection} {e : Ended} (h : c.Calls e c') (hwf : e.call.WellFormed)
    (hc : c.output.SendsSucceed) : ∃ ms, e.Intends ms ∧ c.output.Wrote (ms.flatMap wire) c'.output := by
  obtain ⟨hready, hrun, -⟩ := h
  have hc' : c' = (e.call.run.run c).2 := by rw [hrun]
  have ho : (e.call.run.run c).1 = e.outcome := by rw [hrun]
  obtain ⟨call, ready, outcome⟩ := e
  dsimp only at hready hwf ho hc'
  subst hready hc'
  cases call with
  | query q =>
    refine ⟨_, rfl, ?_⟩
    have hw := query_wrote hc q
    rw [Call.run, Coro.run_bind_pure_snd]
    by_cases hq : c.queryReady
    · rw [if_pos hq] at hw
      simpa only [hq, if_true, List.flatMap_singleton] using hw
    · rw [if_neg hq] at hw
      simpa only [hq, Bool.false_eq_true, if_false, List.flatMap_nil] using hw
  | prepareQuery q stores =>
    refine ⟨_, rfl, ?_⟩
    have hw := prepareQuery_wrote hc q (buffer_storeCalls fun a ha => (hwf.2.1 a ha).inRange)
    have hsnd := Coro.run_bind_pure_snd
      (prepareQuery q (PgParams.new.storeCalls stores).1) (fun _ => (none : Option PgResult)) c
    rw [Call.run, hsnd]
    by_cases hq : c.queryReady
    · rw [if_pos hq] at hw
      simpa only [hq, if_true] using hw
    · rw [if_neg hq] at hw
      simpa only [hq, Bool.false_eq_true, if_false, List.flatMap_nil] using hw
  | execute maxRows =>
    obtain ⟨complete, hw, hresult⟩ := execute_wrote hc maxRows
    refine ⟨_, ⟨complete, rfl, fun r hr => ?_⟩, ?_⟩
    · dsimp only at hr
      rw [hr] at ho
      obtain ⟨result, c₁, hexecute, hpure⟩ := Coro.returned_of_bind (Prod.ext ho rfl)
      obtain rfl := Option.some.inj (Outcome.returned.inj (Prod.mk.inj hpure).1)
      exact hresult result (by rw [hexecute])
    · rw [Call.run, Coro.run_bind_pure_snd]
      exact hw
  | closeSync =>
    refine ⟨_, rfl, ?_⟩
    have hsnd := Coro.run_bind_pure_snd closeSync (fun _ => (none : Option PgResult)) c
    rw [Call.run, hsnd]
    exact closeSync_wrote hc

theorem Ended.exists_intends {es : List Ended} {mss : List (List FrontendMessage)}
    (h : List.Forall₂ Ended.Intends es mss) {m : FrontendMessage} (hm : m ∈ mss.flatten) :
    ∃ e ∈ es, ∃ ms, e.Intends ms ∧ m ∈ ms := by
  induction h with
  | nil => cases hm
  | cons head _ ih =>
    rw [List.flatten_cons] at hm
    rcases List.mem_append.mp hm with hm | hm
    · exact ⟨_, List.mem_cons_self, _, head, hm⟩
    · obtain ⟨e, he, hms⟩ := ih hm
      exact ⟨e, List.mem_cons_of_mem _ he, hms⟩

theorem run_wrote {c c' : PgConnection} {es : List Ended} (hrun : Run Calls c es c')
    (hwf : ∀ e ∈ es, e.call.WellFormed) (hc : c.output.SendsSucceed) :
    ∃ mss, List.Forall₂ Ended.Intends es mss ∧
      c.output.Wrote (mss.flatten.flatMap wire) c'.output := by
  induction hrun with
  | nil c => exact ⟨[], .nil, .refl hc⟩
  | cons head tail ih =>
    obtain ⟨he, hes⟩ := List.forall_mem_cons.mp hwf
    obtain ⟨ms, hms, hw⟩ := calls_wrote head he hc
    obtain ⟨mss, hmss, hw'⟩ := ih hes hw.1
    refine ⟨ms :: mss, .cons hms hmss, ?_⟩
    rw [List.flatten_cons, List.flatMap_append]
    exact hw.trans hw'

end PgConnection

/-! ## The stream as a server reads it -/

open Handshake PgConnection

/-- The messages of calls are well formed, and none of them answers a request. -/
theorem wellFormed_intended {e : Ended} {ms : List FrontendMessage} (h : e.Intends ms)
    (he : e.call.WellFormed) :
    ∀ m ∈ ms, m.WellFormed ∧ m.isStartup = false ∧ m.request? = none := by
  have hclosing : ∀ m ∈ closing, m.WellFormed ∧ m.isStartup = false ∧ m.request? = none := by
    simp [closing, FrontendMessage.WellFormed, isStartup, request?]
  obtain ⟨call, ready, outcome⟩ := e
  cases call with
  | query q =>
    obtain rfl : ms = if ready then [.query q] else [] := h
    have hq : 0 ∉ q := he
    cases ready <;> simp [hq, FrontendMessage.WellFormed, isStartup, request?]
  | prepareQuery q stores =>
    obtain rfl : ms =
      if ready then prepared q ((PgParams.stored stores).map StoreArg.content) else [] := h
    obtain ⟨hq, -, hcount⟩ := he
    have hcount : (PgParams.stored stores).length < 65536 := by omega
    cases ready <;> simp [prepared, hq, hcount, FrontendMessage.WellFormed, isStartup, request?]
  | execute maxRows =>
    obtain ⟨complete, rfl, -⟩ := h
    have hrows : maxRows < 4294967296 := by
      have : maxRows < 2 ^ 31 := he
      omega
    have hexecuting : ∀ m ∈ executing maxRows,
        m.WellFormed ∧ m.isStartup = false ∧ m.request? = none := by
      simp [executing, hrows, FrontendMessage.WellFormed, isStartup, request?]
    intro m hm
    rcases List.mem_append.mp hm with hm | hm
    · exact hexecuting m hm
    · cases complete with
      | true => exact hclosing m hm
      | false => cases hm
  | closeSync =>
    obtain rfl : ms = closing := h
    exact hclosing

theorem wellFormed_startupOf {config : PgConfig} (huser : 0 ∉ config.user)
    (hdatabase : 0 ∉ config.database) : (startupOf config).WellFormed := by
  have huser' : (ascii "user" ≠ [] ∧ 0 ∉ ascii "user") := by decide
  have hdatabase' : (ascii "database" ≠ [] ∧ 0 ∉ ascii "database") := by decide
  intro p hp
  rcases List.mem_cons.mp hp with rfl | hp
  · exact ⟨huser'.1, huser'.2, huser⟩
  · split at hp
    · cases hp
    · rw [List.mem_singleton] at hp
      subst hp
      exact ⟨hdatabase'.1, hdatabase'.2, hdatabase⟩

/-- The connection after `init`, on a new socket, has left off short of undefined behaviour. -/
def Opens (crypt : Crypto) (config : PgConfig) (sock : Socket)
    (random : Nat → Option (Vector Byte 24)) (h : Handshake) : Prop :=
  ∃ o, (init crypt config).run ⟨⟨sock, false⟩, Scram.new, random⟩ = (o, h) ∧ o ≠ .undefined

theorem length_body_le (m : FrontendMessage) : m.body.length + 4 ≤ m.wire.length := by
  cases m <;> simp only [wire, List.length_append, List.length_cons, length_writeU32Be] <;> omega

/-- While sends succeed, everything that a connection has written is the startup message, the answers
to the messages that come to it (`TakenFrom.unique`), and the messages of its calls; and a parser that
is told which requests were answered splits it into just these, with nothing left over. -/
theorem frontend_stream (crypt : Crypto) (config : PgConfig) (huser : 0 ∉ config.user)
    (hpassword : 0 ∉ config.password) (hdatabase : 0 ∉ config.database)
    {recvs : List RecvCompletion} {sends : Nat → SendCompletion}
    (hsends : ∀ i, ∃ extra, sends i = .accepted extra) {random : Nat → Option (Vector Byte 24)}
    {h : Handshake} (hopens : Opens crypt config (Socket.new recvs sends) random h)
    {es : List Ended} {c : PgConnection} (hcalls : Run Calls h.conn es c)
    (hes : ∀ e ∈ es, e.call.WellFormed) :
    ∃ ms answers mss, TakenFrom (Input.carried recvs) ms ∧
      answers = AuthState.answers crypt config ⟨Scram.new, random⟩ ms ∧
      List.Forall₂ Ended.Intends es mss ∧
      c.output.written = (startupOf config :: (answers ++ mss.flatten)).flatMap wire ∧
      ((∀ m ∈ startupOf config :: (answers ++ mss.flatten), m.wire.length < 2 ^ 31) →
        Frontend.parseStream (answers.filterMap request?) c.output.written =
          some (startupOf config :: (answers ++ mss.flatten))) := by
  obtain ⟨o, hinit, -⟩ := hopens
  obtain ⟨ms, hms⟩ := exists_takenFrom (Input.carried recvs)
  have hpending : TakenFrom (Socket.new recvs sends).pending ms := by
    rwa [Socket.pending_new]
  have hw := init_wrote crypt config (h := ⟨⟨Socket.new recvs sends, false⟩, Scram.new, random⟩) rfl
    hsends hpending
  rw [hinit] at hw
  obtain ⟨mss, hmss, hw'⟩ := run_wrote hcalls hes hw.1
  have hanswers := AuthState.wellFormed_answers crypt hpassword ⟨Scram.new, random⟩ ms
  generalize hall : AuthState.answers crypt config ⟨Scram.new, random⟩ ms = answers at hw hanswers
  have hwritten : c.output.written =
      (startupOf config :: (answers ++ mss.flatten)).flatMap wire := by
    rw [(hw.trans hw').2, ← List.flatMap_append, List.cons_append]
    rfl
  refine ⟨ms, answers, mss, hms, hall.symm, hmss, hwritten, fun hlength => ?_⟩
  have hcalled : ∀ m ∈ mss.flatten, m.WellFormed ∧ m.isStartup = false ∧ m.request? = none := by
    intro m hm
    obtain ⟨e, he, ms, hintends, hm⟩ := Ended.exists_intends hmss hm
    exact wellFormed_intended hintends (hes e he) m hm
  have hrequests : answers.filterMap request? = (answers ++ mss.flatten).filterMap request? := by
    rw [List.filterMap_append, List.filterMap_eq_nil_iff.mpr fun m hm => (hcalled m hm).2.2,
      List.append_nil]
  have hbound : ∀ m ∈ startupOf config :: (answers ++ mss.flatten), m.body.length + 4 < 2 ^ 32 := by
    intro m hm
    have := hlength m hm
    have := length_body_le m
    omega
  rw [hwritten, hrequests]
  refine Frontend.parseStream_wire ⟨wellFormed_startupOf huser hdatabase,
    hbound _ List.mem_cons_self⟩ fun m hm => ?_
  have hm' := hbound m (List.mem_cons_of_mem _ hm)
  rcases List.mem_append.mp hm with hm | hm
  · obtain ⟨hwf, hstartup⟩ := hanswers m hm
    exact ⟨hwf, hstartup, hm'⟩
  · obtain ⟨hwf, hstartup, -⟩ := hcalled m hm
    exact ⟨hwf, hstartup, hm'⟩

/-- An exchange in which the server proves itself, and a query that it completes. -/
theorem frontend_stream_query :
    let nonce := base64Encode (List.replicate 24 7)
    let continued : Bytes := ascii "r=" ++ nonce ++ ascii "s,s=AQID,i=1"
    let proof := base64Encode (List.replicate 32 2)
    let frames : List Frame := [authenticationSasl,
      .message 'R'.toUInt8 (writeU32Be 11 ++ continued) (by decide +kernel),
      .message 'R'.toUInt8 (writeU32Be 12 ++ (ascii "v=" ++ proof)) (by decide +kernel),
      authenticationOk, readyForQuery, .message 'C'.toUInt8 (ascii "A\x00") (by decide), readyForQuery]
    let recvs := ((frames.flatMap Frame.wire).map Segment.single).map .data
    let random : Nat → Option (Vector Byte 24) := fun _ => some (Vector.replicate 24 7)
    ∃ (h : Handshake) (c : PgConnection) (clientFinal : Bytes),
      Opens constantCrypto somebody (Socket.new recvs fun _ => .accepted 500) random h ∧
      Run Calls h.conn [⟨.query (ascii "a"), true, .returned none⟩] c ∧
      c.output.written = ([startupOf somebody, .saslInitialResponse scramSha256
        (ascii "n,,n=user,r=" ++ nonce), .saslResponse clientFinal, .query (ascii "a")] :
          List FrontendMessage).flatMap wire ∧
      ∃ ms answers mss, TakenFrom (Input.carried recvs) ms ∧
        answers = AuthState.answers constantCrypto somebody ⟨Scram.new, random⟩ ms ∧
        List.Forall₂ Ended.Intends [⟨.query (ascii "a"), true, .returned none⟩] mss ∧
        c.output.written = (startupOf somebody :: (answers ++ mss.flatten)).flatMap wire ∧
        ((∀ m ∈ startupOf somebody :: (answers ++ mss.flatten), m.wire.length < 2 ^ 31) →
          Frontend.parseStream (answers.filterMap request?) c.output.written =
            some (startupOf somebody :: (answers ++ mss.flatten))) := by
  intro nonce continued proof frames recvs random
  obtain ⟨h, hinit, hready, hanswered, hwritten⟩ : ∃ h, (init constantCrypto somebody).run
        ⟨⟨Socket.new recvs fun _ => .accepted 500, false⟩, Scram.new, random⟩ = (.returned (), h) ∧
      h.conn.queryReady = true ∧ ((Call.query (ascii "a")).run.run h.conn).1 = .returned none ∧
      ((Call.query (ascii "a")).run.run h.conn).2.output.written = ([startupOf somebody,
        .saslInitialResponse scramSha256 (ascii "n,,n=user,r=" ++ nonce),
        .saslResponse (ascii "c=biws,r=" ++ nonce ++ ascii "s,p=" ++
          base64Encode (List.replicate 32 0)), .query (ascii "a")] :
            List FrontendMessage).flatMap wire := by
    have hsplit : ∀ (r : Outcome Exn Unit × Handshake) (bs : Bytes),
        (r.1, r.2.conn.queryReady, ((Call.query (ascii "a")).run.run r.2.conn).1,
          ((Call.query (ascii "a")).run.run r.2.conn).2.output.written) =
            (.returned (), true, .returned none, bs) →
        ∃ h, r = (.returned (), h) ∧ h.conn.queryReady = true ∧
          ((Call.query (ascii "a")).run.run h.conn).1 = .returned none ∧
          ((Call.query (ascii "a")).run.run h.conn).2.output.written = bs := by
      rintro ⟨o, h⟩ bs heq
      simp only [Prod.mk.injEq] at heq
      obtain ⟨rfl, hready, hanswered, hwritten⟩ := heq
      exact ⟨h, rfl, hready, hanswered, hwritten⟩
    exact hsplit _ _ (by decide +kernel)
  have hopens : Opens constantCrypto somebody (Socket.new recvs fun _ => .accepted 500) random h :=
    ⟨.returned (), hinit, by simp⟩
  have hrun : Run Calls h.conn [⟨.query (ascii "a"), true, .returned none⟩]
      ((Call.query (ascii "a")).run.run h.conn).2 :=
    .cons ⟨hready.symm, Prod.ext hanswered rfl, by simp⟩ (.nil _)
  have hquery : 0 ∉ ascii "a" := by decide
  exact ⟨h, _, _, hopens, hrun, hwritten, frontend_stream constantCrypto somebody (by decide)
    (by decide) (by decide) (fun _ => ⟨500, rfl⟩) hopens hrun (by simpa [Call.WellFormed] using hquery)⟩

end CppEvent
