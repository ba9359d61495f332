import CppEvent.Library.Transition
import CppEvent.Postgres.Frontend
import CppEvent.Postgres.Params

/-!
# What a connection sends

While sends succeed, every function of `pg_connection` writes whole messages: those that it is there
to send, with length fields that fit them, whatever it receives and however it leaves off. So the
stream of a connection is split by a server into just these messages (`frontend_stream`).
-/

namespace CppEvent

open Coroutine Transition

/-- These bytes were written, and sends go on succeeding. -/
def Output.Wrote (s : Output) (bs : Bytes) (s' : Output) : Prop :=
  s'.SendsSucceed ∧ s'.written = s.written ++ bs

namespace Output.Wrote

variable {s s' s'' : Output} {bs cs : Bytes}

theorem refl (h : s.SendsSucceed) : s.Wrote [] s := ⟨h, (List.append_nil _).symm⟩

theorem trans (h : s.Wrote bs s') (h' : s'.Wrote cs s'') : s.Wrote (bs ++ cs) s'' :=
  ⟨h'.1, by rw [h'.2, h.2, List.append_assoc]⟩

theorem unique (h : s.Wrote bs s') (h' : s.Wrote cs s') : bs = cs :=
  List.append_cancel_left (h.2.symm.trans h'.2)

end Output.Wrote

section Sends

variable {σ α : Type} {sock : σ → Socket}

/-- While sends succeed, `t` returns with exactly these bytes written. -/
def Sends (sock : σ → Socket) (t : Coro σ Exn Unit) (bs : Bytes) : Prop :=
  ∀ s, (sock s).output.SendsSucceed →
    ∃ s', t.run s = (.returned (), s') ∧ (sock s).Writes bs (sock s')

theorem Sends.bind {t : Coro σ Exn Unit} {f : Unit → Coro σ Exn Unit} {bs cs : Bytes}
    (ht : Sends sock t bs) (hf : Sends sock (f ()) cs) : Sends sock (t >>= f) (bs ++ cs) := by
  intro s hs
  obtain ⟨s₁, hrun, hw⟩ := ht s hs
  obtain ⟨s₂, hrun₂, hw₂⟩ := hf s₁ hw.2.2.1
  exact ⟨s₂, by rw [Coro.bind_returned _ hrun, hrun₂], hw.trans hw₂⟩

theorem Sends.of_eq {t : Coro σ Exn Unit} {bs cs : Bytes} (ht : Sends sock t bs) (h : bs = cs) :
    Sends sock t cs := h ▸ ht

theorem Sends.focus {τ : Type} {sock : τ → Socket} {get : σ → τ} {set : τ → σ → σ}
    (hfield : Coro.IsField get set) {t : Coro τ Exn Unit} {bs : Bytes} (ht : Sends sock t bs) :
    Sends (fun s => sock (get s)) (Coro.focus get set t) bs := by
  intro s hs
  obtain ⟨p, hrun, hw⟩ := ht (get s) hs
  refine ⟨set p s, Coro.run_focus hrun, ?_⟩
  simp only [hfield.get_set]
  exact hw

end Sends

namespace PgConnection

/-! ## `prepare_query` -/

def sendPrepare (q : Bytes) (params : PgParams) : Coro PgConnection Exn Unit := do
  onSock (Socket.write (responseHeader 'P'.toUInt8 (q.length + 4)))
  onSock (Socket.write [0])
  onSock (Socket.write (q ++ [0]))
  onSock (Socket.write [0, 0])
  onSock (Socket.write (responseHeader 'B'.toUInt8 (params.buffer.length + 3 * 2)))
  onSock (Socket.write [0])
  onSock (Socket.write [0])
  onSock (Socket.write [0, 0])
  onSock (Socket.write params.buffer)
  onSock (Socket.write [0, 0])

def prepareQuery (q : Bytes) (params : PgParams) : Coro PgConnection Exn Unit := do
  let c ← Coro.get
  if ¬ c.queryReady then
    Coro.fail (.runtimeError "pg_connection query_extended: Not query ready")
  else do
    sendPrepare q params
    setQueryReady false

/-! ## Messages -/

theorem sends_write (src : Bytes) : Sends sock (onSock (Socket.write src)) src := by
  intro c hc
  obtain ⟨s, hrun, hw⟩ := Socket.write_run hc src
  exact ⟨{ c with sock := s }, Coro.run_focus hrun, hw⟩

theorem sends_flush : Sends sock (onSock Socket.flush) [] := by
  intro c hc
  obtain ⟨s, hrun, hw, -⟩ := Socket.flush_run hc
  exact ⟨{ c with sock := s }, Coro.run_focus hrun, hw⟩

open FrontendMessage

theorem sends_query (q : Bytes) : Sends sock (sendQuery q) (FrontendMessage.query q).wire := by
  refine ((sends_write _).bind ((sends_write _).bind sends_flush)).of_eq ?_
  simp only [responseHeader, wire, kind, body, text, List.length_append, List.length_singleton,
    List.append_nil]

def prepared (q : Bytes) (values : List (Option Bytes)) : List FrontendMessage :=
  [.parse [] q [], .bind [] [] [] values []]

theorem sends_prepare (q : Bytes) {params : PgParams} {values : List (Option Bytes)}
    (hparams : params.buffer = counted encodeValue values) :
    Sends sock (sendPrepare q params) ((prepared q values).flatMap wire) := by
  refine ((sends_write _).bind ((sends_write _).bind ((sends_write _).bind ((sends_write _).bind
    ((sends_write _).bind ((sends_write _).bind ((sends_write _).bind ((sends_write _).bind
    ((sends_write _).bind (sends_write _)))))))))).of_eq ?_
  have hempty : ∀ encode : Nat → Bytes, counted encode [] = [0, 0] := fun _ => rfl
  have hparse : q.length + 4 = (text [] ++ text q ++ [0, 0]).length := by
    simp only [text, List.length_append, List.length_cons, List.length_nil]
    omega
  have hbind : params.buffer.length + 3 * 2 =
      (text [] ++ text [] ++ [0, 0] ++ params.buffer ++ [0, 0]).length := by
    simp only [text, List.length_append, List.length_cons, List.length_nil]
    omega
  simp only [prepared, List.flatMap_cons, List.flatMap_nil, wire, kind, body, hempty, ← hparams,
    responseHeader, hparse, hbind]
  simp only [text, List.nil_append, List.append_assoc, List.cons_append, List.append_nil]

/-! ## Receiving touches the input only -/

section Silent

variable {α : Type}

abbrev output (c : PgConnection) : Output := c.sock.output

/-- A part of the connection that is not in the input. -/
def IsAside {τ : Type} (part : PgConnection → τ) : Prop :=
  ∀ c i, part { c with sock.input := i } = part c

theorem output_isAside : IsAside output := fun _ _ => rfl

variable {τ : Type} {part : PgConnection → τ} (hpart : IsAside part)
include hpart

theorem keeps_onInput (t : Coro Input Exn α) : Coro.Keeps part (onSock (Socket.onInput t)) :=
  fun c => hpart c _

theorem keeps_skip (size : Int) : Coro.Keeps part (skip size) := keeps_onInput hpart _

theorem keeps_skipIfAny (size : Int) : Coro.Keeps part (skipIfAny size) :=
  .ite (keeps_skip hpart size) (.pure _)

theorem keeps_getResponseInfo : Coro.Keeps part (getResponseInfo true) :=
  .loop (fun size => (keeps_skipIfAny hpart size).bind fun _ =>
    .bind (.bind (keeps_onInput hpart _) fun _ => .pure _) fun _ => .ite (.pure _) (.pure _)) 0

theorem keeps_readTag (size : Int) : Coro.Keeps part (readTag size) :=
  (keeps_onInput hpart _).bind fun _ => .ite .stuck (.pure _)

theorem keeps_populateResult (info : ResponseInfo) (result : PgResult) :
    Coro.Keeps part (populateResult info result) := by
  rw [populateResult]
  split
  · refine (keeps_onInput hpart _).bind fun descData => ?_
    cases decodeRowDescription descData
    · exact .stuck
    · exact .pure _
  · refine (keeps_onInput hpart _).bind fun rowData => ?_
    cases decodeDataRow rowData
    · exact .stuck
    · exact .pure _
  · exact .pure _

theorem keeps_discard {t : Coro PgConnection Exn α} (ht : Coro.Keeps part t) :
    Coro.Keeps part (discard t) := by
  intro c
  have hc : part (t.run (c.withRecvs [])).2 = part c := (ht _).trans (hpart c _)
  have hafter : ∀ c' : PgConnection, part (c'.withRecvs c.sock.input.recvs) = part c' :=
    fun c' => hpart c' _
  simp only [discard]
  rcases hrun : t.run (c.withRecvs []) with ⟨_ | _ | _ | _, c'⟩ <;>
    · rw [hrun] at hc
      exact (hafter c').trans hc

theorem keeps_populateDiscarded (info : ResponseInfo) (result : PgResult) :
    Coro.Keeps part (populateDiscarded info result) :=
  (keeps_discard hpart (keeps_populateResult hpart info result)).bind fun _ => .pure _

theorem keeps_executeSwitch (result : PgResult) (info : ResponseInfo) :
    Coro.Keeps part (executeSwitch result info) := by
  rw [executeSwitch]
  split
  · exact .pure _
  · exact .pure _
  · exact (keeps_skip hpart _).bind fun _ => .pure _
  · exact (keeps_skip hpart _).bind fun _ => .pure _
  · exact (keeps_populateDiscarded hpart _ _).bind fun _ => .pure _
  · exact (keeps_populateDiscarded hpart _ _).bind fun _ => .pure _
  · exact (keeps_readTag hpart _).bind fun _ => .pure _
  · exact .pure _
  · exact .pure _

theorem keeps_executeRound (result : PgResult) : Coro.Keeps part (executeRound result) :=
  .ite (.pure _) ((keeps_getResponseInfo hpart).bind fun info =>
    (keeps_executeSwitch hpart result info).bind fun _ => .pure _)

omit hpart

/-! ### Receiving writes nothing -/

theorem keeps_setQueryReady (ready : Bool) : Coro.Keeps output (setQueryReady ready) :=
  .modify fun _ => rfl

theorem keeps_querySwitch (results : PgResults) (info : ResponseInfo) :
    Coro.Keeps output (querySwitch results info) := by
  rw [querySwitch]
  split
  · exact (keeps_readTag output_isAside _).bind fun _ => .pure _
  · exact (keeps_populateDiscarded output_isAside _ _).bind fun _ => .pure _
  · exact (keeps_populateDiscarded output_isAside _ _).bind fun _ => .pure _
  · exact (keeps_skip output_isAside _).bind fun _ => .pure _
  · exact (keeps_skip output_isAside _).bind fun _ => .pure _
  · exact (keeps_skip output_isAside _).bind fun _ => (keeps_setQueryReady _).bind fun _ => .pure _
  · exact .pure _

theorem keeps_receiveQuery : Coro.Keeps output receiveQuery :=
  .loop (fun results => Coro.Keeps.get.bind fun _ => .ite (.pure _)
    ((keeps_getResponseInfo output_isAside).bind fun info =>
      (keeps_querySwitch results info).bind fun _ => .pure _)) _

theorem keeps_closeRound : Coro.Keeps output (closeRound ()) :=
  (keeps_getResponseInfo output_isAside).bind fun _ =>
    (keeps_skipIfAny output_isAside _).bind fun _ => .pure _

end Silent

/-! ## `execute` and `close_sync` -/

def executing (maxRows : Nat) : List FrontendMessage := [.execute [] maxRows, .flush]

def closing : List FrontendMessage := [.closePortal [], .sync]

/-- The part of `execute` that sends. -/
def sendExecute (maxRows : Nat) : Coro PgConnection Exn Unit := do
  onSock (Socket.write (responseHeader 'E'.toUInt8 (4 + 1)))
  onSock (Socket.write [0])
  onSock (Socket.write (writeU32Be maxRows))
  onSock (Socket.write (responseHeader 'H'.toUInt8 0))
  onSock Socket.flush

def receiveExecute : Coro PgConnection Exn (PgResult × Bool) :=
  Coro.loop (fun c => c.sock.pending.length + 1) executeRound .empty

/-- What follows the receive loop of `execute`. -/
def finishExecute (r : PgResult × Bool) : Coro PgConnection Exn PgResult :=
  if r.2 then do
    closeSync
    pure r.1
  else pure r.1

theorem execute_eq (maxRows : Nat) : execute maxRows = (do
    sendExecute maxRows
    let r ← receiveExecute
    finishExecute r) := by
  apply Coro.ext
  intro c
  simp only [execute, sendExecute, Coro.bind_assoc]
  rfl

theorem sends_execute (maxRows : Nat) :
    Sends sock (sendExecute maxRows) ((executing maxRows).flatMap wire) := by
  refine ((sends_write _).bind ((sends_write _).bind ((sends_write _).bind ((sends_write _).bind
    sends_flush)))).of_eq ?_
  rfl

theorem sends_close : Sends sock (do
    onSock (Socket.write (['C'.toUInt8, 0, 0, 0, 6, 'P'.toUInt8, 0] ++ ['S'.toUInt8, 0, 0, 0, 4]))
    onSock Socket.flush) (closing.flatMap wire) :=
  ((sends_write _).bind sends_flush).of_eq rfl

theorem keeps_receiveExecute {τ : Type} {part : PgConnection → τ} (hpart : IsAside part) :
    Coro.Keeps part receiveExecute :=
  .loop (keeps_executeRound hpart) _

/-- What `close_sync` does when it has sent its messages. -/
def receiveClose : Coro PgConnection Exn Unit := do
  Coro.loop (fun c => c.sock.pending.length + 1) closeRound ()
  setQueryReady true

theorem closeSync_eq : closeSync = (do
    onSock (Socket.write (['C'.toUInt8, 0, 0, 0, 6, 'P'.toUInt8, 0] ++ ['S'.toUInt8, 0, 0, 0, 4]))
    onSock Socket.flush) >>= fun _ => receiveClose := by
  apply Coro.ext
  intro c
  simp only [closeSync, receiveClose, Coro.bind_assoc]

theorem keeps_receiveClose : Coro.Keeps output receiveClose :=
  .bind (.loop (fun _ => keeps_closeRound) _) fun _ => keeps_setQueryReady true

/-! ### The result of `execute` -/

section Ensures

variable {α : Type}

theorem ensures_discard {t : Coro PgConnection Exn α} {post : α → Prop}
    (ht : Coro.Ensures t post) : Coro.Ensures (discard t) fun a => ∀ b, a = some b → post b := by
  intro c a c' hrun
  simp only [discard] at hrun
  rcases ht' : t.run (c.withRecvs []) with ⟨b | _ | _ | _, c₁⟩ <;> rw [ht'] at hrun
  · obtain rfl := Outcome.returned.inj (Prod.mk.inj hrun).1
    intro b' hb
    obtain rfl := Option.some.inj hb
    exact ht _ _ _ ht'
  · obtain rfl := Outcome.returned.inj (Prod.mk.inj hrun).1
    intro b' hb
    cases hb
  · obtain rfl := Outcome.returned.inj (Prod.mk.inj hrun).1
    intro b' hb
    cases hb
  · cases (Prod.mk.inj hrun).1

theorem ensures_populateResult (info : ResponseInfo) (result : PgResult) :
    Coro.Ensures (populateResult info result) fun r => r.type = result.type := by
  rw [populateResult]
  split
  · refine (Coro.Ensures.trivial _).bind fun descData _ => ?_
    cases decodeRowDescription descData with
    | none => exact fun _ _ _ hrun => by cases (Prod.mk.inj hrun).1
    | some cols => exact .pure (by rw [PgResult.foldl_addColumn])
  · refine (Coro.Ensures.trivial _).bind fun rowData _ => ?_
    cases decodeDataRow rowData with
    | none => exact fun _ _ _ hrun => by cases (Prod.mk.inj hrun).1
    | some row => exact .pure rfl
  · exact .pure rfl

theorem ensures_populateDiscarded (info : ResponseInfo) (result : PgResult) :
    Coro.Ensures (populateDiscarded info result) fun r => r.type = result.type := by
  refine (ensures_discard (ensures_populateResult info result)).bind fun populated hpopulated => ?_
  cases populated with
  | none => exact .pure rfl
  | some r => exact .pure (hpopulated r rfl)

/-- A round leaves a result that is not suspended, unless it ends the loop for that. -/
theorem ensures_executeSwitch {result : PgResult} (h : result.type = .pending)
    (info : ResponseInfo) : Coro.Ensures (executeSwitch result info)
      (Sum.elim (fun r => r.type ≠ .suspended) fun r => r.type = .suspended) := by
  have hne : result.type ≠ .suspended := by rw [h]; decide
  have hrow : Coro.Ensures (do
      let r ← populateDiscarded info result
      pure (.inl r)) (Sum.elim (fun r : PgResult => r.type ≠ .suspended)
        fun r : PgResult => r.type = .suspended) :=
    (ensures_populateDiscarded info result).bind fun r hr => .pure (by rwa [Sum.elim_inl, hr])
  rw [executeSwitch]
  split
  · exact .pure hne
  · exact .pure hne
  · exact (Coro.Ensures.trivial _).bind fun _ _ => .pure (by simp [PgResult.setError])
  · exact (Coro.Ensures.trivial _).bind fun _ _ => .pure (by simp [PgResult.setError])
  · exact hrow
  · exact hrow
  · exact (Coro.Ensures.trivial _).bind fun _ _ => .pure (by simp [PgResult.setCommandTag])
  · exact .pure rfl
  · exact .pure hne

theorem ensures_receiveExecute : Coro.Ensures receiveExecute fun r =>
    (r.2 = true ↔ r.1.type ≠ .suspended) ∧ r.1.type ≠ .pending := by
  refine Coro.Ensures.loop (fun r : PgResult => r.type ≠ .suspended) (fun result hne => ?_)
    (by decide)
  rw [executeRound]
  split
  · rename_i hdone
    exact .pure ⟨iff_of_true rfl hne, hdone⟩
  · rename_i hpending
    refine (Coro.Ensures.trivial _).bind fun info _ =>
      (ensures_executeSwitch (not_not.mp hpending) info).bind fun next hnext => .pure ?_
    cases next with
    | inl r => exact hnext
    | inr r =>
      have hsuspended : r.type = .suspended := hnext
      exact ⟨by simp [hsuspended], by simp [hsuspended]⟩

end Ensures

end PgConnection

/-! ## `init` -/

namespace Handshake

open FrontendMessage

variable {α : Type}

abbrev output (h : Handshake) : Output := h.conn.output

theorem keeps_onConn {t : Coro PgConnection Exn α} (ht : Coro.Keeps PgConnection.output t) :
    Coro.Keeps output (onConn t) := ht.focus_field conn_isField

theorem keeps_onScram (t : Coro Scram Exn α) : Coro.Keeps output (onScram t) := fun _ => rfl

theorem keeps_read (size : Int) : Coro.Keeps output (onSock (Socket.read size true)) :=
  keeps_onConn (PgConnection.keeps_onInput PgConnection.output_isAside _)

theorem sends_write (src : Bytes) :
    Sends (fun h : Handshake => h.conn.sock) (onSock (Socket.write src)) src :=
  (PgConnection.sends_write src).focus conn_isField

theorem sends_flush : Sends (fun h : Handshake => h.conn.sock) (onSock Socket.flush) [] :=
  PgConnection.sends_flush.focus conn_isField

theorem sends_respond (bs : Bytes) : Sends (fun h : Handshake => h.conn.sock) (respond bs)
    (responseHeader 'p'.toUInt8 bs.length ++ bs) :=
  ((sends_write _).bind ((sends_write _).bind sends_flush)).of_eq (by rw [List.append_nil])

theorem sends_saslInitialResponse (data : Bytes) :
    Sends (fun h : Handshake => h.conn.sock) (do
      onSock (Socket.write
        (responseHeader 'p'.toUInt8 ((scramSha256.length + 1) + 4 + data.length)))
      onSock (Socket.write (scramSha256 ++ [0]))
      onSock (Socket.write (writeU32Be data.length))
      onSock (Socket.write data)
      onSock Socket.flush) (saslInitialResponse scramSha256 data).wire := by
  refine ((sends_write _).bind ((sends_write _).bind ((sends_write _).bind ((sends_write _).bind
    sends_flush)))).of_eq ?_
  have hlength : (scramSha256.length + 1) + 4 + data.length =
      (saslInitialResponse scramSha256 data).body.length := by
    simp only [body, text, List.length_append, List.length_singleton, length_writeU32Be]
  rw [hlength]
  simp only [responseHeader, wire, kind, body, text, List.append_nil, List.append_assoc,
    List.cons_append]

def startupOf (config : PgConfig) : FrontendMessage :=
  .startup ((ascii "user", config.user) ::
    if config.database = [] then [] else [(ascii "database", config.database)])

theorem wire_startupOf (config : PgConfig) : (startupOf config).wire =
    writeU32Be (8 + (startupMessage config).length) ++ writeU32Be (3 * 2 ^ 16 + 0) ++
      startupMessage config := by
  have hbody : (startupOf config).body = writeU32Be (3 * 2 ^ 16) ++ startupMessage config := by
    rw [startupOf, body, startupMessage]
    by_cases hdatabase : config.database = []
    · simp only [if_pos hdatabase, List.flatMap_singleton, text, List.append_assoc, List.nil_append]
    · simp only [if_neg hdatabase, List.flatMap_cons, List.flatMap_nil, text, List.append_assoc,
        List.append_nil]
  have hwire : (startupOf config).wire =
      writeU32Be ((startupOf config).body.length + 4) ++ (startupOf config).body := rfl
  have hlength : (startupOf config).body.length + 4 = 8 + (startupMessage config).length := by
    rw [hbody, List.length_append, length_writeU32Be]
    omega
  rw [hwire, hlength, hbody, List.append_assoc, Nat.add_zero]

end Handshake

end CppEvent
