import CppEvent.Postgres.Layout

/-!
# Frame synchronisation

Whether a receive loop is at the start of a message again after the round that handled one. For each
loop `Accepts` says of which messages that is so in every state in which they are wholly buffered
once their headers are read, and `round_inSync_iff` that it is so of these and no others. A round that
throws has nothing to be in step with, and one that still waits to send has not ended.
-/

namespace CppEvent

open Coroutine

/-- The receive loops, each with what its rounds share with the rest of its function. -/
inductive ReceiveLoop where
  | init (crypt : Crypto) (config : PgConfig)
  | query (results : PgResults)
  | execute (result : PgResult) (pending : result.type = .pending)
  | closeSync

namespace ReceiveLoop

def round : ReceiveLoop → Coro Handshake Exn Unit
  | init crypt config => Coro.void (Handshake.initRound crypt config ())
  | query results => Handshake.onConn (Coro.void (PgConnection.queryRound results))
  | execute result _ => Handshake.onConn (Coro.void (PgConnection.executeRound result))
  | closeSync => Handshake.onConn (Coro.void (PgConnection.closeRound ()))

end ReceiveLoop

/-! ## Being in step -/

/-- The same of the part of a round behind the header of a message. -/
def SwitchInSync (r : Outcome Exn Unit × Handshake) (h : Handshake) (m : Frame) : Prop :=
  match r.1 with
  | .returned _ => 4 ≤ m.length ∧ h.conn.pending = m.payload ++ r.2.conn.pending
  | .threw _ => True
  | .suspended => True
  | .undefined => False

/-- A state behind the header of a message, with the payload buffered and `rest` behind it. -/
structure AtPayload (h : Handshake) (m : Frame) (rest : Bytes) : Prop where
  pending : h.conn.pending = m.payload ++ rest
  buffered : ∃ more, h.conn.sock.input.buffer.unread = m.payload ++ more

/-- Exactly under `P` a `switch` stays in step with a message in every state behind its header. -/
structure InStepIff (t : Coro Handshake Exn Unit) (m : Frame) (P : Prop) : Prop where
  good : P → ∀ h rest, AtPayload h m rest → SwitchInSync (t.run h) h m
  bad : ¬ P → ∃ rest, ∀ h, AtPayload h m rest → h.conn.sock.output.SendsSucceed →
    h.scr = Scram.new → ¬ SwitchInSync (t.run h) h m

namespace InStepIff

variable {t : Coro Handshake Exn Unit} {m : Frame} {P Q : Prop}

theorem congr (hstep : InStepIff t m P) (hiff : P ↔ Q) : InStepIff t m Q := by
  rwa [← propext hiff]

theorem fail (e : Exn) (m : Frame) : InStepIff (Coro.fail e) m True where
  good := fun _ _ _ _ => trivial
  bad := fun h => absurd trivial h

end InStepIff

/-! ## Skipping, rows and tags -/

namespace Handshake

variable {α β : Type}

end Handshake

namespace PgConnection

end PgConnection

namespace InStepIff

open Handshake PgConnection

variable {m : Frame}

theorem length_ge_of_payload {m : Frame} (h : m.payload ≠ []) : 4 < m.length := by
  have := m.length_payload
  have := List.length_pos_iff.mpr h
  omega

theorem populated_isSome_iff {type : ResponseType} {payload : Bytes} {result : PgResult}
    (hrow : type = .rowDescription ∨ type = .dataRow) :
    (populated type payload result).isSome ↔ RowFits type payload := by
  rcases hrow with rfl | rfl
  · rw [← decodeRowDescription_isSome_iff, ← Option.isSome_iff_exists]
    simp [populated]
  · rw [← decodeDataRow_isSome_iff, ← Option.isSome_iff_exists]
    simp [populated]

theorem payload_ne_nil_of_rowFits {type : ResponseType} {payload : Bytes}
    (hrow : type = .rowDescription ∨ type = .dataRow) (h : RowFits type payload) : payload ≠ [] := by
  rcases hrow with rfl | rfl
  · obtain ⟨fields, rest, -, rfl⟩ := h
    simp [writeU16Be]
  · obtain ⟨fields, rest, -, rfl⟩ := h
    simp [writeU16Be]

section Void

variable {α : Type} {t : Coro PgConnection Exn α} {h : Handshake}

theorem switchInSync_returned
    (hrun : ∃ a c, t.run h.conn = (.returned a, c) ∧ h.conn.Consumes m.payload c)
    (h4 : 4 ≤ m.length) : SwitchInSync ((onConn (Coro.void t)).run h) h m := by
  obtain ⟨a, c, hrun, hc⟩ := hrun
  rw [onConn, Coro.run_focus (Coro.void_returned hrun)]
  exact ⟨h4, hc.1.pending_eq⟩

theorem length_ge_of_switchInSync {a : α} {c : PgConnection}
    (hrun : t.run h.conn = (.returned a, c))
    (hin : SwitchInSync ((onConn (Coro.void t)).run h) h m) : 4 ≤ m.length := by
  rw [onConn, Coro.run_focus (Coro.void_returned hrun)] at hin
  exact hin.1

theorem not_switchInSync_undefined {c : PgConnection} (hrun : t.run h.conn = (.undefined, c)) :
    ¬ SwitchInSync ((onConn (Coro.void t)).run h) h m := by
  have hvoid : (Coro.void t).run h.conn = (.undefined, c) := by
    rw [Coro.void, Coro.bind_undefined _ hrun]
  rw [onConn, Coro.run_focus hvoid]
  exact id

end Void

/-- A row that has been read as a whole has to be decoded inside of it. -/
theorem row (hrow : m.type = .rowDescription ∨ m.type = .dataRow) (result : PgResult) :
    InStepIff (onConn (Coro.void (populateDiscarded ⟨m.type, m.size⟩ result))) m
      (RowFits m.type m.payload) where
  good := by
    intro hfits h rest hp
    obtain ⟨r, hr⟩ := Option.isSome_iff_exists.mp ((populated_isSome_iff hrow).mpr hfits)
    have h4 := length_ge_of_payload (payload_ne_nil_of_rowFits hrow hfits)
    obtain ⟨more, hmore⟩ := hp.buffered
    obtain ⟨c, hrun, hc⟩ := populateDiscarded_buffered hrow (by omega) result hmore
    rw [hr] at hrun
    exact switchInSync_returned ⟨r, c, hrun, hc⟩ (by omega)
  bad := by
    intro hfits
    have hnone : ¬ (populated m.type m.payload result).isSome := fun h =>
      hfits ((populated_isSome_iff hrow).mp h)
    refine ⟨[], fun h hp _ _ hin => ?_⟩
    by_cases h4 : 4 ≤ m.length
    · obtain ⟨more, hmore⟩ := hp.buffered
      obtain ⟨c, hrun, hc⟩ := populateDiscarded_buffered hrow h4 result hmore
      rw [Option.not_isSome_iff_eq_none.mp hnone] at hrun
      exact not_switchInSync_undefined hrun hin
    · have hstarved : h.conn.sock.input.buffer.unread.length < m.size := by
        have hle : h.conn.sock.input.buffer.unread.length ≤ 8192 :=
          h.conn.sock.input.buffer.length_unread_le
        rw [m.size_of_lt (by omega)]
        omega
      obtain ⟨c, hrun, -⟩ := populateDiscarded_starved hrow result hstarved
      exact h4 (length_ge_of_switchInSync hrun hin)

theorem readTag_frame {c : PgConnection} (hne : m.payload ≠ []) {rest : Bytes}
    (h : c.pending = m.payload ++ rest) :
    ∃ a c', (readTag m.size).run c = (.returned a, c') ∧ c.Consumes m.payload c' := by
  have h4 := length_ge_of_payload hne
  obtain ⟨c', hrun, hc⟩ := readTag_run h
  rw [if_neg hne, ← m.size_eq (by omega)] at hrun
  exact ⟨_, c', hrun, hc⟩

theorem tag (m : Frame) :
    InStepIff (onConn (Coro.void (readTag m.size))) m (m.payload ≠ []) where
  good := by
    intro hne h rest hp
    have h4 := length_ge_of_payload hne
    exact switchInSync_returned (readTag_frame hne hp.pending) (by omega)
  bad := by
    intro hnil
    rw [not_not] at hnil
    refine ⟨List.replicate m.size 0, fun h hp _ _ hin => ?_⟩
    have hpending : h.conn.pending = List.replicate m.size 0 ++ [] := by
      rw [hp.pending, hnil, List.nil_append, List.append_nil]
    obtain ⟨c, hrun, -⟩ := readTag_run hpending
    rw [List.length_replicate] at hrun
    by_cases h4 : 4 ≤ m.length
    · have hsize : m.size = 0 := by rw [m.size_eq h4, hnil, List.length_nil]
      rw [if_pos (by rw [hsize, List.replicate_zero])] at hrun
      exact not_switchInSync_undefined hrun hin
    · have hsize : m.size ≠ 0 := by
        rw [m.size_of_lt (by omega)]
        omega
      rw [if_neg (by rwa [List.replicate_eq_nil_iff])] at hrun
      exact h4 (length_ge_of_switchInSync hrun hin)

end InStepIff

/-! ## Authentication -/

namespace Handshake

variable {α : Type} (crypt : Crypto) (config : PgConfig)

/-- What `handle_auth` does when it has read the kind of the request. -/
def authSwitch (type : AuthType) (msgSize : Int) : Coro Handshake Exn Unit :=
  match type with
  | .ok => pure ()
  | .clearTextPassword => respond (config.password ++ [0])
  | .sasl => onSock (Socket.read msgSize true) >>= respondMechanisms config
  | .saslContinue => onSock (Socket.read msgSize true) >>= respondServerFirst crypt config
  | .saslFinal => onSock (Socket.read msgSize true) >>= fun serverFinalMsg =>
      Coro.get >>= fun h =>
        if h.scr.verifyServerFinalMsg serverFinalMsg then pure ()
        else Coro.fail (.runtimeError "SASL Auth unexpected final msg")
  | .other _ => Coro.fail (.runtimeError "Unrecognized auth method")

/-- `read_u32_be(type_data)`. -/
def authCode (typeData : Bytes) : Nat :=
  readU32Be (typeData.getD 0 0) (typeData.getD 1 0) (typeData.getD 2 0) (typeData.getD 3 0)

theorem handleAuth_eq (info : ResponseInfo) :
    handleAuth crypt config info = onSock (Socket.readInto (4 : Nat) true) >>= fun typeData =>
      authSwitch crypt config (AuthType.ofCode (authCode typeData)) (info.size - 4) :=
  rfl

/-! ### Answers leave the reading half alone -/

abbrev input (h : Handshake) : Input := h.conn.sock.input

/-- The coroutine reads nothing and stays defined. -/
structure Answers (t : Coro Handshake Exn α) : Prop where
  keeps : Coro.Keeps input t
  defined : Coro.Defined t

namespace Answers

theorem bind {β : Type} {t : Coro Handshake Exn α} {f : α → Coro Handshake Exn β} (ht : Answers t)
    (hf : ∀ a, Answers (f a)) : Answers (t >>= f) :=
  ⟨ht.keeps.bind fun a => (hf a).keeps, ht.defined.bind fun a => (hf a).defined⟩

theorem onOutput {t : Coro Output Exn α} (ht : Coro.Defined t) :
    Answers (onSock (Socket.onOutput t)) :=
  ⟨fun _ => rfl, fun h => ht h.conn.sock.output⟩

theorem write (src : Bytes) : Answers (onSock (Socket.write src)) :=
  onOutput (Output.write_defined src)

theorem flush : Answers (onSock Socket.flush) :=
  onOutput Output.flush_defined

theorem fail (e : Exn) : Answers (Coro.fail e : Coro Handshake Exn α) :=
  ⟨.fail e, .fail e⟩

theorem onScram {t : Coro Scram Exn α} (ht : Coro.Defined t) : Answers (onScram t) :=
  ⟨fun _ => rfl, ht.focus⟩

theorem generateRandomString : Answers generateRandomString := by
  constructor
  · intro h
    simp only [Handshake.generateRandomString]
    split <;> rfl
  · intro h
    simp only [Handshake.generateRandomString]
    split <;> simp

theorem respond (body : Bytes) : Answers (respond body) :=
  (write _).bind fun _ => (write _).bind fun _ => flush

theorem respondMechanisms (mechanisms : Bytes) : Answers (respondMechanisms config mechanisms) := by
  rw [Handshake.respondMechanisms]
  split
  · exact fail _
  · refine generateRandomString.bind fun cNonce => (onScram ?_).bind fun _ => (write _).bind fun _ =>
      (write _).bind fun _ => (write _).bind fun _ => (write _).bind fun _ => flush
    exact (Coro.Defined.modify _).bind fun _ => Coro.Defined.get.bind fun _ => .pure _

theorem respondServerFirst {msg : Bytes} (h : Scram.overflows msg = false) :
    Answers (respondServerFirst crypt config msg) :=
  (onScram (Scram.resolveServerFirstMsg_defined h)).bind fun _ =>
    (onScram (Scram.generateClientFinalMsg_defined crypt config.password)).bind fun _ => respond _

end Answers

theorem switchInSync_of_answers {t : Coro Handshake Exn Unit} (ht : Answers t) {h h' : Handshake}
    {m : Frame} (h4 : 4 ≤ m.length) (hp : h.conn.pending = m.payload ++ h'.conn.pending) :
    SwitchInSync (t.run h') h m := by
  have hkeeps : (t.run h').2.conn.pending = h'.conn.pending := congrArg Input.pending (ht.keeps h')
  have hdefined := ht.defined h'
  rcases hrun : t.run h' with ⟨_ | _ | _ | _, h''⟩
  · rw [hrun] at hkeeps
    exact ⟨h4, by rw [hp]; exact congrArg _ hkeeps.symm⟩
  · trivial
  · trivial
  · exact absurd (congrArg Prod.fst hrun) hdefined

/-! ### Reading a request -/

theorem run_onInput {t : Coro Input Exn α} {h : Handshake} {o : Outcome Exn α} {i : Input}
    (hrun : t.run h.input = (o, i)) :
    (onSock (Socket.onInput t)).run h = (o, { h with conn.sock.input := i }) := by
  simp only [onSock, onConn, PgConnection.onSock, Socket.onInput, Coro.focus, hrun]

theorem readInto_run {h : Handshake} {bs rest : Bytes} (hp : h.conn.pending = bs ++ rest) :
    ∃ c, (onSock (Socket.readInto bs.length true)).run h = (.returned bs, { h with conn := c }) ∧
      h.conn.Consumes bs c := by
  obtain ⟨s, hrun, hc⟩ := Socket.readInto_run true hp
  obtain ⟨c, hrun', hc'⟩ := PgConnection.run_onSock hrun hc
  exact ⟨c, by rw [onSock, onConn, Coro.run_focus hrun'], hc'⟩

theorem read_run {h : Handshake} {bs rest : Bytes} (hp : h.conn.pending = bs ++ rest) :
    ∃ c, (onSock (Socket.read bs.length true)).run h = (.returned bs, { h with conn := c }) ∧
      h.conn.Consumes bs c := by
  obtain ⟨s, hrun, hc⟩ := Socket.read_run true hp
  obtain ⟨c, hrun', hc'⟩ := PgConnection.run_onSock hrun hc
  exact ⟨c, by rw [onSock, onConn, Coro.run_focus hrun'], hc'⟩

/-- However a read leaves off, it is not undefined, and if it returns it has the bytes that were
next. -/
theorem readInto_cases (h : Handshake) (n : Nat) :
    (∃ bs h', (onSock (Socket.readInto n true)).run h = (.returned bs, h') ∧ bs.length = n ∧
      ∃ rest, h.conn.pending = bs ++ rest) ∨
    (∃ e h', (onSock (Socket.readInto n true)).run h = (.threw e, h')) ∨
    ∃ h', (onSock (Socket.readInto n true)).run h = (.suspended, h') := by
  have hread : Input.readInto n true = Input.consume "socket read" n true := by
    rw [Input.readInto, if_neg (by omega), Int.toNat_natCast]
  have hfocus {o : Outcome Exn Bytes} {i : Input}
      (hrun : (Input.consume "socket read" n true).run h.input = (o, i)) :
      (onSock (Socket.readInto n true)).run h = (o, { h with conn.sock.input := i }) := by
    rw [← hread] at hrun
    rw [Socket.readInto, run_onInput hrun]
  rcases hrun : (Input.consume "socket read" n true).run h.input with ⟨bs | e | _ | _, i⟩
  · obtain ⟨hlen, hc⟩ := Input.consume_returned hrun
    exact .inl ⟨bs, _, hfocus hrun, hlen, i.pending, hc.pending_eq⟩
  · exact .inr (.inl ⟨e, _, hfocus hrun⟩)
  · exact .inr (.inr ⟨_, hfocus hrun⟩)
  · exact absurd (congrArg Prod.fst hrun) (Input.consume_defined _ _ _ _)

variable {m : Frame}

/-- A request that has a kind is dispatched on it, with the rest of its payload next. -/
theorem handleAuth_run {h : Handshake} {rest : Bytes} (hp : h.conn.pending = m.payload ++ rest)
    (hlen : 4 ≤ m.payload.length) :
    ∃ c : PgConnection, (handleAuth crypt config ⟨m.type, m.size⟩).run h =
        (authSwitch crypt config (AuthType.ofCode (authCode m.payload))
          (m.payload.drop 4).length).run { h with conn := c } ∧
      c.pending = m.payload.drop 4 ++ rest ∧ c.sock.output = h.conn.sock.output := by
  obtain ⟨b₀, b₁, b₂, b₃, data, hdata⟩ :
      ∃ b₀ b₁ b₂ b₃ data, m.payload = b₀ :: b₁ :: b₂ :: b₃ :: data := by
    rcases hm : m.payload with _ | ⟨b₀, _ | ⟨b₁, _ | ⟨b₂, _ | ⟨b₃, data⟩⟩⟩⟩
    · simp [hm] at hlen
    · simp [hm] at hlen
    · simp [hm] at hlen
    · simp [hm] at hlen
    · exact ⟨b₀, b₁, b₂, b₃, data, rfl⟩
  have hsplit : h.conn.pending = [b₀, b₁, b₂, b₃] ++ (data ++ rest) := by
    rw [hp, hdata]
    rfl
  obtain ⟨c, hrun, hc⟩ := readInto_run hsplit
  change (onSock (Socket.readInto (4 : Nat) true)).run h = _ at hrun
  have hsize : (m.size : Int) - 4 = (m.payload.drop 4).length := by
    have := m.length_payload
    rw [m.size_eq (by omega), List.length_drop]
    omega
  refine ⟨c, ?_, ?_, hc.1.2.1⟩
  · rw [handleAuth_eq, Coro.bind_returned _ hrun, hsize, hdata]
    rfl
  · rw [hc.rest_eq hsplit, hdata]
    rfl

end Handshake

/-- The authentication requests of which a round of `init` takes exactly the payload. One that is too
short for its kind is read on into the next message, unless a byte of it makes the kind an unknown
one; the kinds without data skip none; and the iteration count of a server message with three
parameters, the second in Base64, has to stay in the range of `convert_to_num`. -/
def AuthAccepts (payload : Bytes) : Prop :=
  if payload.length < 4 then ∃ b ∈ payload, b ≠ 0
  else match AuthType.ofCode (Handshake.authCode payload) with
    | .ok | .clearTextPassword => payload.length = 4
    | .saslContinue => ∀ nonce salt iterations bytes,
        Scram.serverParams (payload.drop 4) = [nonce, salt, iterations] →
        base64Decode salt = .ok bytes → Scram.CountFits iterations
    | _ => True

theorem AuthType.ofCode_of_gt {code : Nat} (h : 12 < code) : AuthType.ofCode code = .other code := by
  unfold AuthType.ofCode
  split <;> first | omega | rfl

namespace Handshake

variable {crypt : Crypto} {config : PgConfig} {m : Frame}

theorem authCode_gt {payload bs : Bytes} (hlen : payload.length < 4) (hb : ∃ b ∈ payload, b ≠ 0)
    (hfront : payload <+: bs) : 12 < authCode bs := by
  obtain ⟨b, hmem, hne⟩ := hb
  have hpos : 0 < b.toNat := Nat.pos_of_ne_zero fun h => hne (UInt8.toNat_inj.mp h)
  obtain ⟨i, hi, rfl⟩ := List.getElem_of_mem hmem
  have hget : bs.getD i 0 = payload[i] := by
    obtain ⟨more, rfl⟩ := hfront
    rw [List.getD_eq_getElem?_getD, List.getElem?_append_left hi, List.getElem?_eq_getElem hi]
    rfl
  rw [← hget] at hpos
  rw [authCode, readU32Be, readU16Be, readU16Be]
  obtain rfl | rfl | rfl : i = 0 ∨ i = 1 ∨ i = 2 := by omega
  all_goals omega

theorem handleAuth_short {h : Handshake} {rest : Bytes} (hp : h.conn.pending = m.payload ++ rest)
    (hlen : m.payload.length < 4) (hb : ∃ b ∈ m.payload, b ≠ 0) :
    SwitchInSync ((handleAuth crypt config ⟨m.type, m.size⟩).run h) h m := by
  rw [handleAuth_eq]
  rcases readInto_cases h 4 with ⟨bs, h', hrun, hbs, rest', hp'⟩ | ⟨e, h', hrun⟩ | ⟨h', hrun⟩
  · have hfront : m.payload <+: bs := by
      rw [hp] at hp'
      exact List.prefix_of_prefix_length_le ⟨rest, rfl⟩ ⟨rest', hp'.symm⟩ (by omega)
    rw [Coro.bind_returned _ hrun, AuthType.ofCode_of_gt (authCode_gt hlen hb hfront)]
    trivial
  · rw [Coro.bind_threw _ hrun]
    trivial
  · rw [Coro.bind_suspended _ hrun]
    trivial

theorem respond_run {h : Handshake} (hsends : h.conn.sock.output.SendsSucceed) (body : Bytes) :
    ∃ h', (respond body).run h = (.returned (), h') ∧ h'.conn.pending = h.conn.pending := by
  obtain ⟨s₁, hrun₁, hw₁⟩ := Socket.write_run hsends (responseHeader 'p'.toUInt8 body.length)
  obtain ⟨s₂, hrun₂, hw₂⟩ := Socket.write_run hw₁.2.2.1 body
  obtain ⟨s₃, hrun₃, hw₃, -⟩ := Socket.flush_run hw₂.2.2.1
  have hon {t : Coro Socket Exn Unit} {s s' : Socket} (hrun : t.run s = (.returned (), s')) :
      (onSock t).run { h with conn.sock := s } = (.returned (), { h with conn.sock := s' }) := by
    simp only [onSock, onConn, PgConnection.onSock, Coro.focus, hrun]
  refine ⟨{ h with conn.sock := s₃ }, ?_, ?_⟩
  · rw [respond, Coro.bind_returned _ (hon hrun₁), Coro.bind_returned _ (hon hrun₂), hon hrun₃]
  · exact congrArg Input.pending ((hw₃.1.trans hw₂.1).trans hw₁.1)

theorem respondServerFirst_undefined {h : Handshake} (crypt : Crypto) (config : PgConfig)
    (hscr : h.scr = Scram.new) {msg : Bytes} (hover : Scram.overflows msg) :
    ((respondServerFirst crypt config msg).run h).1 = .undefined := by
  have hresolve : (onScram (Scram.resolveServerFirstMsg msg)).run h =
      (.undefined, { h with scr := ((Scram.resolveServerFirstMsg msg).run Scram.new).2 }) := by
    refine Prod.ext ?_ (by rw [← hscr]; rfl)
    rw [← Scram.resolveServerFirstMsg_undefined hover, ← hscr]
    rfl
  rw [respondServerFirst, Coro.bind_undefined _ hresolve]

end Handshake

namespace InStepIff

open Handshake

variable {m : Frame}

theorem handleAuth_good {crypt : Crypto} {config : PgConfig} {h : Handshake} {rest : Bytes}
    (hp : h.conn.pending = m.payload ++ rest) (hacc : AuthAccepts m.payload) :
    SwitchInSync ((handleAuth crypt config ⟨m.type, m.size⟩).run h) h m := by
  rw [AuthAccepts] at hacc
  by_cases hlen : m.payload.length < 4
  · rw [if_pos hlen] at hacc
    exact handleAuth_short hp hlen hacc
  rw [if_neg hlen] at hacc
  have h4 : 4 ≤ m.length := by
    have := m.length_payload
    omega
  obtain ⟨c, hrun, hc, -⟩ := handleAuth_run crypt config hp (by omega)
  have hnext : h.conn.pending = m.payload.take 4 ++ c.pending := by
    rw [hc, hp, ← List.append_assoc, List.take_append_drop]
  obtain ⟨c₁, hread, hc₁⟩ := read_run (h := { h with conn := c }) hc
  have hdata : h.conn.pending = m.payload ++ c₁.pending := by
    rw [hc₁.rest_eq hc, hp]
  rw [hrun]
  cases htype : AuthType.ofCode (authCode m.payload) with
  | ok =>
    rw [htype] at hacc
    refine ⟨h4, ?_⟩
    rw [hnext, List.take_of_length_le (by omega)]
    rfl
  | clearTextPassword =>
    rw [htype] at hacc
    refine switchInSync_of_answers (.respond _) h4 ?_
    rw [hnext, List.take_of_length_le (by omega)]
  | sasl =>
    rw [authSwitch, Coro.bind_returned _ hread]
    exact switchInSync_of_answers (.respondMechanisms config _) h4 hdata
  | saslContinue =>
    rw [htype] at hacc
    rw [authSwitch, Coro.bind_returned _ hread]
    have hdefined := Scram.overflows_eq_false_iff.mpr hacc
    exact switchInSync_of_answers (.respondServerFirst crypt config hdefined) h4 hdata
  | saslFinal =>
    rw [authSwitch, Coro.bind_returned _ hread, Coro.run_get_bind]
    split
    · exact ⟨h4, hdata⟩
    · trivial
  | other code => trivial

theorem handleAuth_bad {crypt : Crypto} {config : PgConfig} (hacc : ¬ AuthAccepts m.payload) :
    ∃ rest, ∀ h, AtPayload h m rest → h.conn.sock.output.SendsSucceed → h.scr = Scram.new →
      ¬ SwitchInSync ((handleAuth crypt config ⟨m.type, m.size⟩).run h) h m := by
  rw [AuthAccepts] at hacc
  by_cases hlen : m.payload.length < 4
  · rw [if_pos hlen] at hacc
    refine ⟨List.replicate (4 - m.payload.length) 0, fun h hp _ _ hin => ?_⟩
    -- the kind is that of `AuthenticationOk`, part of which is the next message
    have hzero : m.payload = List.replicate m.payload.length 0 :=
      List.eq_replicate_iff.mpr ⟨rfl, fun b hb => by
        by_contra hne
        exact hacc ⟨b, hb, hne⟩⟩
    have hpending : h.conn.pending = List.replicate 4 0 ++ [] := by
      rw [hp.pending, List.append_nil]
      conv_lhs => rw [hzero]
      rw [← List.replicate_add, List.length_replicate]
      congr 1
      omega
    obtain ⟨c, hrun, hc⟩ := readInto_run hpending
    change (onSock (Socket.readInto (4 : Nat) true)).run h = _ at hrun
    rw [handleAuth_eq, Coro.bind_returned _ hrun] at hin
    have heq : h.conn.pending = m.payload ++ c.pending := hin.2
    rw [hc.rest_eq hpending, hpending] at heq
    have := congrArg List.length heq
    simp at this
    omega
  · rw [if_neg hlen] at hacc
    refine ⟨[], fun h hp hsends hscr hin => hacc ?_⟩
    obtain ⟨c, hrun, hc, hout⟩ := handleAuth_run crypt config hp.pending (by omega)
    have hlength (hkeeps : h.conn.pending = m.payload ++ c.pending) : m.payload.length = 4 := by
      have := congrArg List.length (hkeeps.symm.trans hp.pending)
      rw [hc] at this
      simp at this
      omega
    rw [hrun] at hin
    cases htype : AuthType.ofCode (authCode m.payload) with
    | ok =>
      rw [htype] at hin
      exact hlength hin.2
    | clearTextPassword =>
      obtain ⟨h', hrespond, hp'⟩ := respond_run (h := { h with conn := c }) (hout ▸ hsends)
        (config.password ++ [0])
      rw [htype, authSwitch, hrespond] at hin
      exact hlength (hp' ▸ hin.2)
    | saslContinue =>
      by_contra hover
      obtain ⟨c₁, hread, -⟩ := read_run (h := { h with conn := c }) hc
      have hoverflows : Scram.overflows (m.payload.drop 4) = true :=
        Bool.eq_true_of_not_eq_false fun h => hover (Scram.overflows_eq_false_iff.mp h)
      have hstuck := respondServerFirst_undefined (h := { h with conn := c₁ }) crypt config hscr
        hoverflows
      rw [htype, authSwitch, Coro.bind_returned _ hread] at hin
      rwa [SwitchInSync, hstuck] at hin
    | sasl => trivial
    | saslFinal => trivial
    | other code => trivial

theorem handleAuth (crypt : Crypto) (config : PgConfig) (m : Frame) :
    InStepIff (Coro.void (Handshake.handleAuth crypt config ⟨m.type, m.size⟩)) m
      (AuthAccepts m.payload) := by
  rw [Coro.void_unit]
  exact ⟨fun hacc h rest hp => handleAuth_good hp.pending hacc, handleAuth_bad⟩

end InStepIff

/-! ## The loops -/

namespace ReceiveLoop

/-- The messages that a round of a loop takes exactly. -/
def Accepts : ReceiveLoop → Frame → Prop
  | init _ _, m => match m.type with
      | .authentication => AuthAccepts m.payload
      | .backendKeyData | .parameterStatus | .readyForQuery | .noticeResponse => 4 ≤ m.length
      | _ => True
  | query _, m => match m.type with
      | .commandComplete => m.payload ≠ []
      | .rowDescription | .dataRow => RowFits m.type m.payload
      | .emptyQueryResponse | .errorResponse | .readyForQuery | .noticeResponse => 4 ≤ m.length
      | _ => m.length = 4
  | execute _ _, m => match m.type with
      | .commandComplete => m.payload ≠ []
      | .rowDescription | .dataRow => RowFits m.type m.payload
      | .emptyQueryResponse | .errorResponse | .noticeResponse => 4 ≤ m.length
      | _ => m.length = 4
  | closeSync, m => 4 ≤ m.length

open Handshake PgConnection

variable {m : Frame}

end ReceiveLoop

end CppEvent
