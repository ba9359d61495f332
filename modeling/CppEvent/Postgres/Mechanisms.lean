import CppEvent.Postgres.Authentication
import CppEvent.Postgres.Layout
import CppEvent.Postgres.Session

/-!
# The choice of the mechanism

A server that asks for SASL lists the mechanisms it offers, and `handle_auth` looks for the text of
`SCRAM-SHA-256` anywhere in the list. It finds it in every name that contains it, and so it takes
a mechanism that is not offered exactly if such a name stands for it (`choosesOffered_iff`).
-/

namespace CppEvent

open Coroutine FrontendMessage

/-! ## What writing throws -/

namespace Output

variable {es : Exn → Prop}

theorem throws_flush (hes : ∀ what errnum, es (.systemError what errnum)) :
    Coro.Throws es flush := by
  have hsend : Coro.Throws es sendChunk := by
    intro s e s' hrun
    simp only [sendChunk] at hrun
    split at hrun <;> cases hrun
  exact .loop (fun _ => Coro.Throws.get.bind fun _ =>
    .ite (.pure _) (hsend.bind fun _ => .ite (.fail (hes _ _)) (.pure _))) ()

theorem throws_write (hes : ∀ what errnum, es (.systemError what errnum)) (src : Bytes) :
    Coro.Throws es (write src) := by
  have hbuffer : ∀ src, Coro.Throws es (bufferWrite src) := fun _ _ _ _ hrun => by cases hrun
  exact (hbuffer src).bind fun _ => .loop (fun _ => .ite (.pure _)
    ((throws_flush hes).bind fun _ => (hbuffer _).bind fun _ => .pure _)) _

end Output

namespace Handshake

variable {crypt : Crypto} {config : PgConfig} {names : List Bytes} {h : Handshake}

/-! ## Lists of mechanisms -/

/-- The names of an AuthenticationSASL message, each ended by a NUL, and the NUL behind them. -/
def mechanismList (names : List Bytes) : Bytes := names.flatMap (· ++ [0]) ++ [0]

theorem scramSha256_infix_iff (names : List Bytes) :
    scramSha256 <:+: mechanismList names ↔ ∃ name ∈ names, scramSha256 <:+: name := by
  have hnul : 0 ∉ scramSha256 := by decide
  have hne : scramSha256 ≠ [] := by decide
  rw [mechanismList, List.infix_append_cons_iff hnul, List.infix_flatMap_iff hnul hne,
    List.infix_nil, or_iff_left hne]

/-! ## Answers -/

def mechanismNotFound : Exn := .runtimeError "SCRAM mechanism not found"

theorem respondMechanisms_not_found {mechanisms : Bytes} (hnot : ¬ scramSha256 <:+: mechanisms) :
    (respondMechanisms config mechanisms).run h = (.threw mechanismNotFound, h) := by
  rw [respondMechanisms, if_pos hnot, Coro.run_fail]
  rfl

theorem throws_onOutput {es : Exn → Prop} {α : Type} {t : Coro Output Exn α}
    (ht : Coro.Throws es t) : Coro.Throws es (onSock (Socket.onOutput t)) := by
  rw [onSock, onConn, PgConnection.onSock, Socket.onOutput]
  exact ht.focus.focus.focus

theorem throws_respondMechanisms {mechanisms : Bytes} (hfound : scramSha256 <:+: mechanisms) :
    Coro.Throws (· ≠ mechanismNotFound) (respondMechanisms config mechanisms) := by
  have hsystem (what : String) (errnum : Nat) : Exn.systemError what errnum ≠ mechanismNotFound :=
    fun h => by cases h
  have hwrite (src : Bytes) : Coro.Throws (· ≠ mechanismNotFound) (onSock (Socket.write src)) :=
    throws_onOutput (Output.throws_write hsystem src)
  have hflush : Coro.Throws (· ≠ mechanismNotFound) (onSock Socket.flush) :=
    throws_onOutput (Output.throws_flush hsystem)
  have hrandom : Coro.Throws (· ≠ mechanismNotFound) generateRandomString := by
    intro h e h' hrun
    simp only [generateRandomString] at hrun
    split at hrun
    · cases hrun
    · rw [← Outcome.threw.inj (Prod.mk.inj hrun).1]
      decide
  have hfirst (nonce : Bytes) : Coro.Throws (· ≠ mechanismNotFound)
      (onScram (Scram.generateClientFirstMsg config.user nonce)) :=
    fun _ _ _ hrun => by cases (Prod.mk.inj hrun).1
  rw [respondMechanisms, if_neg (not_not.mpr hfound)]
  exact hrandom.bind fun nonce => (hfirst nonce).bind fun _ => (hwrite _).bind fun _ =>
    (hwrite _).bind fun _ => (hwrite _).bind fun _ => (hwrite _).bind fun _ => hflush

/-! ## The request -/

variable (crypt config) in
/-- An AuthenticationSASL message with these names comes down to the answer to their list. -/
theorem handleAuth_sasl {m : Frame} {rest : Bytes}
    (hm : m.payload = writeU32Be 10 ++ mechanismList names)
    (hp : h.conn.pending = m.payload ++ rest) : ∃ c : PgConnection,
      (handleAuth crypt config ⟨m.type, m.size⟩).run h =
        (respondMechanisms config (mechanismList names)).run { h with conn := c } ∧
      c.output = h.output := by
  have hlen : 4 ≤ m.payload.length := by
    rw [hm, List.length_append, length_writeU32Be]
    omega
  have hcode : AuthType.ofCode (authCode m.payload) = .sasl := by
    obtain ⟨b₀, b₁, b₂, b₃, hb, hread⟩ := writeU32Be_eq 10
    have hten : authCode m.payload = 10 := by
      rw [hm, hb]
      exact hread
    rw [hten]
    rfl
  have hdata : m.payload.drop 4 = mechanismList names := by
    rw [hm]
    rfl
  obtain ⟨c, hswitch, hc, hout⟩ := handleAuth_run crypt config hp hlen
  obtain ⟨c', hread, hconsumes⟩ := read_run (h := { h with conn := c }) hc
  rw [hcode, authSwitch, Coro.bind_returned _ hread, hdata] at hswitch
  exact ⟨c', hswitch, hconsumes.1.2.1.trans hout⟩

/-- Only an offered mechanism is chosen: if anything was sent, the names have it, and if they do not,
the call throws. -/
structure ChoosesOffered (names : List Bytes) (h : Handshake) (r : Outcome Exn Unit × Handshake) :
    Prop where
  offered : r.2.output ≠ h.output → scramSha256 ∈ names
  rejected : scramSha256 ∉ names → r.1 = .threw mechanismNotFound

/-- Whatever has been received and whatever becomes of the sends, only an offered mechanism is chosen
exactly if `SCRAM-SHA-256` is among the names or no name contains it. -/
theorem choosesOffered_iff {m : Frame} {rest : Bytes}
    (hm : m.payload = writeU32Be 10 ++ mechanismList names)
    (hp : h.conn.pending = m.payload ++ rest) :
    ChoosesOffered names h ((handleAuth crypt config ⟨m.type, m.size⟩).run h) ↔
      scramSha256 ∈ names ∨ ∀ name ∈ names, ¬ scramSha256 <:+: name := by
  obtain ⟨c, hrun, hout⟩ := handleAuth_sasl crypt config hm hp
  rw [hrun]
  constructor
  · intro hchooses
    by_contra hnot
    rw [not_or] at hnot
    obtain ⟨hmem, hname⟩ := hnot
    push Not at hname
    exact throws_respondMechanisms ((scramSha256_infix_iff names).mpr hname) _ _ _
      (Prod.ext (hchooses.rejected hmem) rfl) rfl
  · intro hnames
    by_cases hmem : scramSha256 ∈ names
    · exact ⟨fun _ => hmem, fun hnot => absurd hmem hnot⟩
    · have hnot : ¬ scramSha256 <:+: mechanismList names := by
        rw [scramSha256_infix_iff]
        rintro ⟨name, hname, hinfix⟩
        exact hnames.resolve_left hmem name hname hinfix
      rw [respondMechanisms_not_found hnot]
      exact ⟨fun hsent => absurd hout hsent, fun _ => rfl⟩

/-- A client that has received the header of a message with this payload. -/
def receiving (payload : Bytes) : Handshake where
  conn := PgConnection.received payload
  scr := Scram.new
  random := fun _ => some (Vector.replicate 24 7)

def saslRequest (names : List Bytes) (h : (mechanismList names).length < 2 ^ 32 - 8) : Frame :=
  .message 'R'.toUInt8 (writeU32Be 10 ++ mechanismList names)
    (by rw [List.length_append, length_writeU32Be]; omega)

theorem pending_receiving (payload : Bytes) : (receiving payload).conn.pending = payload ++ [] := by
  have hrecvs : (payload.map fun b => RecvCompletion.data (.single b)) =
      (payload.map Segment.single).map .data := by
    rw [List.map_map]
    rfl
  change (Socket.new _ _).pending = _
  rw [Socket.pending_new, hrecvs, Input.carried_data, Segment.flatMap_single, List.append_nil]

/-- A server that also offers another mechanism. -/
def offersBoth : Frame :=
  saslRequest [ascii "SCRAM-SHA-256-PLUS", ascii "SCRAM-SHA-256"] (by decide)

theorem choosesOffered_both : ChoosesOffered [ascii "SCRAM-SHA-256-PLUS", ascii "SCRAM-SHA-256"]
    (receiving offersBoth.payload)
    ((handleAuth constantCrypto somebody ⟨offersBoth.type, offersBoth.size⟩).run
      (receiving offersBoth.payload)) :=
  (choosesOffered_iff rfl (pending_receiving _)).mpr (.inl (by decide))

def offersPlus : Frame := saslRequest [ascii "SCRAM-SHA-256-PLUS"] (by decide)

/-- The answer to it is sent. -/
theorem not_choosesOffered : ∃ h' data,
    (handleAuth constantCrypto somebody ⟨offersPlus.type, offersPlus.size⟩).run
        (receiving offersPlus.payload) = (.returned (), h') ∧
      (receiving offersPlus.payload).output.Wrote (saslInitialResponse scramSha256 data).wire
        h'.output ∧
      ¬ ChoosesOffered [ascii "SCRAM-SHA-256-PLUS"] (receiving offersPlus.payload)
        (.returned (), h') := by
  have hm : offersPlus.payload = writeU32Be 10 ++ mechanismList [ascii "SCRAM-SHA-256-PLUS"] := rfl
  obtain ⟨c, hrun, hout⟩ := handleAuth_sasl constantCrypto somebody hm (pending_receiving _)
  have hfound : scramSha256 <:+: mechanismList [ascii "SCRAM-SHA-256-PLUS"] := by decide
  have hsends : c.output.SendsSucceed := by
    rw [hout]
    exact fun _ => ⟨0, rfl⟩
  obtain ⟨h', hanswer, hwrote⟩ := respondMechanisms_found somebody
    (h := { receiving offersPlus.payload with conn := c }) hfound rfl hsends
  change c.output.Wrote _ _ at hwrote
  rw [hout] at hwrote
  refine ⟨h', _, hrun.trans hanswer, hwrote, fun hchooses => ?_⟩
  cases hchooses.rejected (by decide)

end Handshake

end CppEvent
