import CppEvent.Postgres.Query
import CppEvent.Postgres.Session

/-!
# Paging through a cursor

A client that prepares a query and executes it page by page, against a server that answers the
extended protocol (`Backend`). The two are connected both ways: the server reads what the client
writes in the very run that is fed by its replies (`Talks`). However the server cuts the rows, the
pages make up all of them, and the connection is left as it was found (`execute_pages`).
-/

namespace CppEvent

open Coroutine FrontendMessage

/-! ## The server -/

/-- What a server replies to a message, and its state behind it. -/
abbrev Responder (M S : Type) := S → FrontendMessage → List M × S

namespace Responder

variable {M S : Type} (server : Responder M S)

def replies (s : S) : List FrontendMessage → List M
  | [] => []
  | m :: ms => (server s m).1 ++ replies (server s m).2 ms

def after (s : S) : List FrontendMessage → S
  | [] => s
  | m :: ms => after (server s m).2 ms

theorem replies_append (s : S) (ms ns : List FrontendMessage) :
    server.replies s (ms ++ ns) = server.replies s ms ++ server.replies (server.after s ms) ns := by
  induction ms generalizing s with
  | nil => rfl
  | cons m ms ih => rw [List.cons_append, replies, ih, replies, after, List.append_assoc]

theorem after_append (s : S) (ms ns : List FrontendMessage) :
    server.after s (ms ++ ns) = server.after (server.after s ms) ns := by
  induction ms generalizing s with
  | nil => rfl
  | cons m ms ih => exact ih _

end Responder

/-- What becomes of the query of a prepared statement: its rows with the tag at their end, or the
fields of an error. -/
inductive Answer where
  | parseError (fields : Bytes)
  | bindError (fields : Bytes)
  | runs (rows : List (List (Option Bytes))) (ending : Except Bytes Bytes)
  deriving DecidableEq

/-- The rows that are sent before the end or the error. -/
def Answer.sent : Answer → List (List (Option Bytes))
  | runs rows _ => rows
  | _ => []

/-- The command tag, if there is no error. -/
def Answer.tag? : Answer → Option Bytes
  | runs _ (.ok tag) => some tag
  | _ => none

/-- A server with one client. With `lookahead` it looks for a further row before it suspends a portal;
`refusal` is its error for a message out of order. -/
structure Backend where
  answer : Answer
  lookahead : Bool
  status : Byte
  refusal : Bytes

namespace Backend

/-- How far the server is; a portal has the rows that are not sent yet. After an error it ignores
everything up to the next Sync. -/
inductive Phase where
  | idle
  | parsed
  | portal (rows : List (List (Option Bytes))) (ending : Except Bytes Bytes)
  | failed
  deriving DecidableEq

variable (backend : Backend)

/-- Does the limit of an Execute come before the end? Only a positive number is a limit. -/
def Stops (maxRows : Nat) (rows : List (List (Option Bytes))) : Prop :=
  0 < toInt32 maxRows ∧ if backend.lookahead then maxRows < rows.length else maxRows ≤ rows.length

instance (maxRows : Nat) (rows : List (List (Option Bytes))) : Decidable (backend.Stops maxRows rows) :=
  inferInstanceAs (Decidable (_ ∧ _))

/-- The replies to an Execute. -/
def page (maxRows : Nat) (rows : List (List (Option Bytes))) (ending : Except Bytes Bytes) :
    List BackendMessage × Phase :=
  if backend.Stops maxRows rows then
    ((rows.take maxRows).map .dataRow ++ [.portalSuspended], .portal (rows.drop maxRows) ending)
  else match ending with
    | .ok tag => (rows.map .dataRow ++ [.commandComplete tag], .portal [] ending)
    | .error fields => (rows.map .dataRow ++ [.errorResponse fields], .failed)

/-- The replies to a message. -/
def step (phase : Phase) (m : FrontendMessage) : List BackendMessage × Phase :=
  match phase, m with
  | _, .sync => ([.readyForQuery backend.status], .idle)
  | .failed, _ => ([], .failed)
  | phase, .flush => ([], phase)
  | _, .closePortal _ => ([.closeComplete], .parsed)
  | .idle, .parse _ _ _ =>
      match backend.answer with
      | .parseError fields => ([.errorResponse fields], .failed)
      | _ => ([.parseComplete], .parsed)
  | .parsed, .bind _ _ _ _ _ =>
      match backend.answer with
      | .runs rows ending => ([.bindComplete], .portal rows ending)
      | .bindError fields | .parseError fields => ([.errorResponse fields], .failed)
  | .portal rows ending, .execute _ maxRows => backend.page maxRows rows ending
  | _, _ => ([.errorResponse backend.refusal], .failed)

end Backend

/-- The replies are these messages, each of them behind any number of notices. -/
abbrev Reply.Carry : List Reply → List BackendMessage → Prop :=
  List.Carry Reply.message fun m => m.type = .noticeResponse

namespace BackendMessage

/-- The messages after which a result is still pending. -/
def extendsResult : BackendMessage → Bool
  | parseComplete | bindComplete | rowDescription _ | dataRow _ => true
  | _ => false

theorem type_ne_notice {m : BackendMessage} (h : m.extendsResult ∨ m.endsResult) :
    m.type ≠ .noticeResponse := by
  cases m <;> simp_all [extendsResult, endsResult, type]

end BackendMessage

namespace PgConnection

/-- These messages are next and then nothing, each of them wholly buffered once its header has been
read. -/
def Hears (c : PgConnection) (ms : List BackendMessage) : Prop :=
  ∃ rs, Reply.Carry rs ms ∧ c.Incoming (rs.map Reply.frame) []

variable {c : PgConnection} {m : BackendMessage} {ms : List BackendMessage}

theorem Hears.congr (h : c.Hears ms) {c' : PgConnection} (hinput : c'.sock.input = c.sock.input) :
    c'.Hears ms := by
  obtain ⟨rs, hcarry, hin⟩ := h
  exact ⟨rs, hcarry, hin.congr hinput⟩

theorem Hears.receive (h : c.Hears (m :: ms)) (hm : m.type ≠ .noticeResponse) :
    ∃ (r : Reply) (rs : List Reply) (c' : PgConnection), r.message = m ∧
      (getResponseInfo true).run c = (.returned ⟨r.frame.type, r.frame.size⟩, c') ∧
      c'.Delivers r.frame (rs.map Reply.frame) [] ∧
      (∀ c'', c'.Consumes r.frame.payload c'' → c''.Hears ms) ∧
      c'.queryReady = c.queryReady ∧ c'.output = c.output ∧
      c'.pending.length < c.pending.length := by
  obtain ⟨rs, hcarry, hin⟩ := h
  obtain ⟨ns, r, rs', rfl, hns, hr, hrs'⟩ := hcarry.next
  rw [List.map_append, List.map_cons] at hin
  obtain ⟨c', hrun, hc, hdelivers⟩ := hin.receive (Reply.frame_isNotice hns)
    (Reply.not_isNotice (hr ▸ hm))
  have hlength := hc.length_pending
  rw [List.length_append, Frame.length_header, headerSize] at hlength
  exact ⟨r, rs', c', hr, hrun, hdelivers, fun c'' hc'' => ⟨rs', hrs', hdelivers.next c'' hc''⟩,
    hc.2, hc.1.2.1, by omega⟩

theorem Hears.pending_nil (h : c.Hears []) : c.pending = [] := by
  obtain ⟨rs, hcarry, hin⟩ := h
  cases hcarry
  exact hin.pending

/-! ## A page -/

variable {result : PgResult} {type : ResponseType} {size : Int}

theorem executeSwitch_complete (h : type = .parseComplete ∨ type = .bindComplete) :
    executeSwitch result ⟨type, size⟩ = pure (.inl result) := by
  rcases h with rfl | rfl <;> rfl

theorem executeSwitch_row (h : type = .rowDescription ∨ type = .dataRow) :
    executeSwitch result ⟨type, size⟩ = (do
      let result ← populateDiscarded ⟨type, size⟩ result
      pure (.inl result)) := by
  rcases h with rfl | rfl <;> rfl

theorem executeSwitch_skip (h : type = .emptyQueryResponse ∨ type = .errorResponse) :
    executeSwitch result ⟨type, size⟩ = (do
      let _ ← skip size
      pure (.inl result.setError)) := by
  rcases h with rfl | rfl <;> rfl

theorem executeSwitch_commandComplete (h : type = .commandComplete) :
    executeSwitch result ⟨type, size⟩ = (do
      let tag ← readTag size
      pure (.inl (result.setCommandTag tag))) := by
  subst h
  rfl

theorem executeSwitch_portalSuspended (h : type = .portalSuspended) :
    executeSwitch result ⟨type, size⟩ = pure (.inr result.setSuspended) := by
  subst h
  rfl

theorem executeSwitch_extends {r : Reply} {fs : List Frame} {rest : Bytes}
    (h : c.Delivers r.frame fs rest) (hr : r.message.extendsResult)
    {cur : List BackendMessage} (hresult : result.Gathers cur) :
    ∃ result' c', (executeSwitch result ⟨r.frame.type, r.frame.size⟩).run c =
        (.returned (.inl result'), c') ∧ c.Consumes r.frame.payload c' ∧
      result'.Gathers (cur ++ [r.message]) ∧ result'.type = result.type := by
  have htype := r.type_frame
  cases hm : r.message with
  | rowDescription fields =>
    rw [hm] at htype
    obtain ⟨c', hrun, hc⟩ := h.rowDescription hm result
    refine ⟨_, c', ?_, hc, hresult.addColumns fields, by rw [PgResult.foldl_addColumn]⟩
    rw [executeSwitch_row (.inl htype), Coro.bind_returned _ hrun, Coro.run_pure]
  | dataRow values =>
    rw [hm] at htype
    obtain ⟨row, c', hrun, hcontent, hc⟩ := h.dataRow hm result
    refine ⟨_, c', ?_, hc, hresult.addRow hcontent, rfl⟩
    rw [executeSwitch_row (.inr htype), Coro.bind_returned _ hrun, Coro.run_pure]
  | parseComplete =>
    rw [hm] at htype
    have hpayload : r.frame.payload = [] := by rw [Reply.payload_frame, hm]; rfl
    refine ⟨result, c, ?_, hpayload ▸ .refl c, hresult.append (by simp [BackendMessage.columns?,
      BackendMessage.row?]), rfl⟩
    rw [executeSwitch_complete (.inl htype), Coro.run_pure]
  | bindComplete =>
    rw [hm] at htype
    have hpayload : r.frame.payload = [] := by rw [Reply.payload_frame, hm]; rfl
    refine ⟨result, c, ?_, hpayload ▸ .refl c, hresult.append (by simp [BackendMessage.columns?,
      BackendMessage.row?]), rfl⟩
    rw [executeSwitch_complete (.inr htype), Coro.run_pure]
  | _ => simp [hm, BackendMessage.extendsResult] at hr

theorem executeSwitch_ends {r : Reply} {fs : List Frame} {rest : Bytes}
    (h : c.Delivers r.frame fs rest) (hr : r.message.endsResult)
    {cur : List BackendMessage} (hresult : result.Gathers cur) :
    ∃ result' c', (executeSwitch result ⟨r.frame.type, r.frame.size⟩).run c =
        (.returned (.inl result'), c') ∧ c.Consumes r.frame.payload c' ∧
      result'.Renders (cur, r.message) := by
  have htype := r.type_frame
  cases hm : r.message with
  | commandComplete tag =>
    rw [hm] at htype
    obtain ⟨c', hrun, hc⟩ := h.readTag hm
    refine ⟨result.setCommandTag tag, c', ?_, hc, hresult.congr rfl rfl, rfl, rfl⟩
    rw [executeSwitch_commandComplete htype, Coro.bind_returned _ hrun, Coro.run_pure]
  | emptyQueryResponse =>
    rw [hm] at htype
    obtain ⟨c', hrun, hc⟩ := h.skip
    refine ⟨result.setError, c', ?_, hc, hresult.congr rfl rfl, rfl⟩
    rw [executeSwitch_skip (.inl htype), Coro.bind_returned _ hrun, Coro.run_pure]
  | errorResponse fields =>
    rw [hm] at htype
    obtain ⟨c', hrun, hc⟩ := h.skip
    refine ⟨result.setError, c', ?_, hc, hresult.congr rfl rfl, rfl⟩
    rw [executeSwitch_skip (.inr htype), Coro.bind_returned _ hrun, Coro.run_pure]
  | _ => simp [hm, BackendMessage.endsResult] at hr

/-- Before a round of the receive loop of `execute`: `cur` of the page is in the result and `ms` is
still to come, or the result is finished. -/
def Executing (page : List BackendMessage) (e : BackendMessage) (more : List BackendMessage)
    (result : PgResult) (c : PgConnection) : Prop :=
  (∃ cur ms, page = cur ++ ms ∧ result.Gathers cur ∧ result.type = .pending ∧
    c.Hears (ms ++ e :: more)) ∨
  (e.endsResult ∧ result.Renders (page, e)) ∧ c.Hears more

/-- What `execute` makes of a page: a finished result, or a suspended one that it returns at once. -/
def Paged (page : List BackendMessage) (e : BackendMessage) (r : PgResult × Bool) : Prop :=
  r.2 = true ∧ (e.endsResult ∧ r.1.Renders (page, e)) ∨
  r.2 = false ∧ e = .portalSuspended ∧ r.1.Gathers page ∧ r.1.type = .suspended

/-- One round: it goes on with less to come, or it ends the loop. -/
theorem executeRound_run {page : List BackendMessage} {e : BackendMessage}
    {more : List BackendMessage} (hpage : ∀ m ∈ page, m.extendsResult)
    (he : e.endsResult ∨ e = .portalSuspended) (h : Executing page e more result c) :
    ∃ next c', (executeRound result).run c = (.returned next, c') ∧
      c'.queryReady = c.queryReady ∧ c'.output = c.output ∧
      ((∃ result', next = .inl result' ∧ Executing page e more result' c' ∧
          c'.pending.length < c.pending.length) ∨
        ∃ r, next = .inr r ∧ Paged page e r ∧ c'.Hears more ∧
          (c'.pending.length < c.pending.length ∨ c' = c ∧ result.type ≠ .pending)) := by
  rcases h with ⟨cur, ms, rfl, hresult, hpending, hhears⟩ | ⟨⟨he, hrenders⟩, hhears⟩
  · have hround : executeRound result = (do
        let info ← getResponseInfo true
        let next ← executeSwitch result info
        pure (next.map id fun result => (result, false))) := by
      rw [executeRound, if_neg (not_not.mpr hpending)]
    cases ms with
    | nil =>
      rcases he with he | rfl
      -- the message that ends the result
      · obtain ⟨r, rs, c₁, rfl, hinfo, hdelivers, hnext, hready₁, hout₁, hlt₁⟩ :=
          hhears.receive (BackendMessage.type_ne_notice (.inr he))
        obtain ⟨result', c₂, hswitch, hc₂, hrenders⟩ := executeSwitch_ends hdelivers he hresult
        have hlength := hc₂.length_pending
        refine ⟨_, c₂, ?_, hc₂.2.trans hready₁, hc₂.1.2.1.trans hout₁, .inl ⟨result', rfl,
          .inr ⟨⟨he, ?_⟩, hnext c₂ hc₂⟩, by omega⟩⟩
        · rw [hround, Coro.bind_returned _ hinfo, Coro.bind_returned _ hswitch, Coro.run_pure]
          rfl
        · rwa [List.append_nil]
      -- the limit
      · obtain ⟨r, rs, c₁, hr, hinfo, hdelivers, hnext, hready₁, hout₁, hlt₁⟩ :=
          hhears.receive (by simp [BackendMessage.type])
        have htype : r.frame.type = .portalSuspended := by rw [Reply.type_frame, hr]; rfl
        have hpayload : r.frame.payload = [] := by rw [Reply.payload_frame, hr]; rfl
        refine ⟨.inr (result.setSuspended, false), c₁, ?_, hready₁, hout₁, .inr ⟨_, rfl,
          .inr ⟨rfl, rfl, ?_, rfl⟩, hnext c₁ (hpayload ▸ .refl c₁), .inl hlt₁⟩⟩
        · rw [hround, Coro.bind_returned _ hinfo, executeSwitch_portalSuspended htype]
          rfl
        · rw [List.append_nil]
          exact hresult.congr rfl rfl
    | cons m ms =>
      have hm := hpage m (by simp)
      obtain ⟨r, rs, c₁, rfl, hinfo, hdelivers, hnext, hready₁, hout₁, hlt₁⟩ :=
        hhears.receive (BackendMessage.type_ne_notice (.inl hm))
      obtain ⟨result', c₂, hswitch, hc₂, hresult', htype⟩ :=
        executeSwitch_extends hdelivers hm hresult
      have hlength := hc₂.length_pending
      refine ⟨_, c₂, ?_, hc₂.2.trans hready₁, hc₂.1.2.1.trans hout₁, .inl ⟨result', rfl,
        .inl ⟨cur ++ [r.message], ms, by simp, hresult', htype.trans hpending, hnext c₂ hc₂⟩,
        by omega⟩⟩
      rw [hround, Coro.bind_returned _ hinfo, Coro.bind_returned _ hswitch, Coro.run_pure]
      rfl
  · refine ⟨.inr (result, true), c, ?_, rfl, rfl, .inr ⟨_, rfl, .inl ⟨rfl, he, hrenders⟩, hhears,
      .inr ⟨rfl, hrenders.type_ne_pending⟩⟩⟩
    rw [executeRound, if_pos hrenders.type_ne_pending, Coro.run_pure]

/-- The receive loop of `execute` takes one page. -/
theorem receiveExecute_run {page : List BackendMessage} {e : BackendMessage}
    {more : List BackendMessage} (hpage : ∀ m ∈ page, m.extendsResult)
    (he : e.endsResult ∨ e = .portalSuspended) (h : c.Hears (page ++ e :: more)) :
    ∃ r c', receiveExecute.run c = (.returned r, c') ∧ Paged page e r ∧ c'.Hears more ∧
      c'.queryReady = c.queryReady ∧ c'.output = c.output ∧
      c'.pending.length < c.pending.length := by
  unfold receiveExecute
  obtain ⟨r, c', hloop, hpost⟩ := Coro.loop_returns (fun c => c.sock.pending.length + 1) executeRound
    (fun result c' => Executing page e more result c' ∧ c'.queryReady = c.queryReady ∧
      c'.output = c.output ∧ c'.pending.length ≤ c.pending.length ∧
      (result.type ≠ .pending → c'.pending.length < c.pending.length))
    (fun r c' => Paged page e r ∧ c'.Hears more ∧ c'.queryReady = c.queryReady ∧
      c'.output = c.output ∧ c'.pending.length < c.pending.length)
    (fun _ c' => c'.pending.length) .empty c ⟨.inl ⟨[], page, rfl, PgResult.gathers_empty, rfl, h⟩,
      rfl, rfl, Nat.le_refl _, fun hne => absurd rfl hne⟩ (Nat.lt_succ_self _)
    (fun result c₁ hinv => by
      obtain ⟨hexecuting, hready, hout, hle, hlt⟩ := hinv
      obtain ⟨next, c₂, hrun, hready₂, hout₂, hnext⟩ := executeRound_run hpage he hexecuting
      rcases hnext with ⟨result', rfl, hexecuting', hlt'⟩ | ⟨r, rfl, hpaged, hhears, hend⟩
      · exact .inl ⟨result', c₂, hrun, ⟨hexecuting', hready₂.trans hready, hout₂.trans hout,
          by omega, fun _ => by omega⟩, hlt'⟩
      · refine .inr ⟨r, c₂, hrun, hpaged, hhears, hready₂.trans hready, hout₂.trans hout, ?_⟩
        rcases hend with hlt' | ⟨rfl, hne⟩
        · omega
        · exact hlt hne)
  exact ⟨r, c', hloop, hpost⟩

/-! ## The drain -/

theorem closeRound_skipped {c₁ c₂ : PgConnection} {k : Int}
    (hinfo : (getResponseInfo true).run c = (.returned ⟨type, size⟩, c₁))
    (hskip : (skipIfAny size).run c₁ = (.returned k, c₂)) :
    (closeRound ()).run c =
      (.returned (if type = .readyForQuery then .inr () else .inl ()), c₂) := by
  rw [closeRound, Coro.bind_returned _ hinfo, Coro.bind_returned _ hskip, Coro.run_pure]

theorem closeRound_run (hm : m.type ≠ .noticeResponse) (h : c.Hears (m :: ms)) :
    ∃ c', (closeRound ()).run c =
        (.returned (if m.type = .readyForQuery then .inr () else .inl ()), c') ∧ c'.Hears ms ∧
      c'.output = c.output ∧ c'.pending.length < c.pending.length := by
  obtain ⟨r, rs, c₁, rfl, hinfo, hdelivers, hnext, -, hout₁, hlt₁⟩ := h.receive hm
  obtain ⟨c₂, hskip, hc₂⟩ := hdelivers.skipIfAny
  have hlength := hc₂.length_pending
  refine ⟨c₂, ?_, hnext c₂ hc₂, hc₂.1.2.1.trans hout₁, by omega⟩
  rw [closeRound_skipped hinfo hskip, r.type_frame]

theorem receiveClose_run {drained : List BackendMessage} {z : BackendMessage}
    (hdrained : ∀ m ∈ drained, m.type ≠ .noticeResponse ∧ m.type ≠ .readyForQuery)
    (hz : z.type = .readyForQuery) (h : c.Hears (drained ++ z :: ms)) :
    ∃ c', receiveClose.run c = (.returned (), c') ∧ c'.Hears ms ∧ c'.queryReady = true ∧
      c'.output = c.output := by
  obtain ⟨_, c₁, hloop, hhears, hout⟩ := Coro.loop_returns (fun c => c.sock.pending.length + 1)
    closeRound (fun _ c' => (∃ pre post, drained = pre ++ post ∧ c'.Hears (post ++ z :: ms)) ∧
      c'.output = c.output) (fun _ c' => c'.Hears ms ∧ c'.output = c.output)
    (fun _ c' => c'.pending.length) () c ⟨⟨[], drained, rfl, h⟩, rfl⟩ (Nat.lt_succ_self _) (by
      rintro ⟨⟩ c₁ ⟨⟨pre, post, hpost, hhears⟩, hout⟩
      cases post with
      | nil =>
        obtain ⟨c₂, hrun, hhears₂, hout₂, -⟩ := closeRound_run (by rw [hz]; decide) hhears
        rw [if_pos hz] at hrun
        exact .inr ⟨(), c₂, hrun, hhears₂, hout₂.trans hout⟩
      | cons m post =>
        obtain ⟨hnotice, hready⟩ := hdrained m (by simp [hpost])
        obtain ⟨c₂, hrun, hhears₂, hout₂, hlt⟩ := closeRound_run hnotice hhears
        rw [if_neg hready] at hrun
        exact .inl ⟨(), c₂, hrun, ⟨⟨pre ++ [m], post, by simp [hpost], hhears₂⟩,
          hout₂.trans hout⟩, hlt⟩)
  refine ⟨{ c₁ with queryReady := true }, ?_, hhears.congr rfl, rfl, hout⟩
  rw [receiveClose, Coro.bind_returned _ hloop]
  rfl

/-! ## Both sides -/

variable {S : Type} {server : Responder BackendMessage S} {final : Output} {goal s : S}
  {unread : List BackendMessage}

/-- The server is in the state `s` and has sent `unread`, of which the client has taken nothing. What
the client goes on to write, up to `final`, it parses, and its replies to that are what comes next; it
takes the server to the state `goal`. -/
def Converses (c : PgConnection) (server : Responder BackendMessage S) (final : Output) (goal s : S)
    (unread : List BackendMessage) : Prop :=
  c.output.SendsSucceed ∧ ∃ bs n sent, final.written = c.output.written ++ bs ∧
    Frontend.parseMessages n [] bs = some sent ∧ server.after s sent = goal ∧
    c.Hears (unread ++ server.replies s sent)

theorem Converses.send (h : c.Converses server final goal s unread) {ms : List FrontendMessage}
    (hms : ∀ m ∈ ms, (m.WellFormed ∧ m.isStartup = false ∧ m.request? = none) ∧
      m.body.length + 4 < 2 ^ 32) {c' : PgConnection}
    (hw : c.sock.Writes (ms.flatMap wire) c'.sock) (hfinal : c'.output.written <+: final.written) :
    c'.Converses server final goal (server.after s ms) (unread ++ server.replies s ms) := by
  obtain ⟨hsends, bs, n, sent, hbs, hparse, hgoal, hhears⟩ := h
  obtain ⟨p, hp⟩ := hfinal
  have hsplit : bs = ms.flatMap wire ++ p := by
    have hwritten : c'.output.written = c.output.written ++ ms.flatMap wire := hw.2.2.2
    rw [hwritten, List.append_assoc, hbs] at hp
    exact (List.append_cancel_left hp).symm
  rw [hsplit] at hparse
  obtain ⟨n', sent', rfl, hparse'⟩ := Frontend.parseMessages_append hms hparse
  rw [server.after_append] at hgoal
  rw [server.replies_append, ← List.append_assoc] at hhears
  exact ⟨hw.2.2.1, p, n', sent', hp.symm, hparse', hgoal, hhears.congr hw.1⟩

theorem Converses.stop (h : c.Converses server c.output goal s unread) :
    c.Hears unread ∧ s = goal := by
  obtain ⟨-, bs, n, sent, hbs, hparse, hgoal, hhears⟩ := h
  obtain rfl : bs = [] := List.self_eq_append_right.mp hbs
  obtain rfl : [] = sent := by
    cases n <;> exact Option.some.inj hparse
  rw [Responder.replies, List.append_nil] at hhears
  exact ⟨hhears, hgoal⟩

theorem Converses.page {page more : List BackendMessage} {e : BackendMessage}
    (h : c.Converses server final goal s (page ++ e :: more)) (hpage : ∀ m ∈ page, m.extendsResult)
    (he : e.endsResult ∨ e = .portalSuspended) :
    ∃ r c', receiveExecute.run c = (.returned r, c') ∧ Paged page e r ∧
      c'.Converses server final goal s more ∧ c'.output = c.output ∧
      c'.pending.length < c.pending.length := by
  obtain ⟨hsends, bs, n, sent, hbs, hparse, hgoal, hhears⟩ := h
  rw [List.append_assoc, List.cons_append] at hhears
  obtain ⟨r, c', hrun, hpaged, hhears', -, hout, hlt⟩ := receiveExecute_run hpage he hhears
  exact ⟨r, c', hrun, hpaged, ⟨hout ▸ hsends, bs, n, sent, hout ▸ hbs, hparse, hgoal, hhears'⟩, hout,
    hlt⟩

theorem Converses.drain {drained more : List BackendMessage} {z : BackendMessage}
    (h : c.Converses server final goal s (drained ++ z :: more))
    (hdrained : ∀ m ∈ drained, m.type ≠ .noticeResponse ∧ m.type ≠ .readyForQuery)
    (hz : z.type = .readyForQuery) :
    ∃ c', receiveClose.run c = (.returned (), c') ∧ c'.Converses server final goal s more ∧
      c'.queryReady = true := by
  obtain ⟨hsends, bs, n, sent, hbs, hparse, hgoal, hhears⟩ := h
  rw [List.append_assoc, List.cons_append] at hhears
  obtain ⟨c', hrun, hhears', hready, hout⟩ := receiveClose_run hdrained hz hhears
  exact ⟨c', hrun, ⟨hout ▸ hsends, bs, n, sent, hout ▸ hbs, hparse, hgoal, hhears'⟩, hready⟩

/-- The same of a `backend`, in whichever phase it ends. -/
def Talks (c : PgConnection) (backend : Backend) (final : Output) (phase : Backend.Phase)
    (unread : List BackendMessage) : Prop :=
  ∃ goal, c.Converses backend.step final goal phase unread

end PgConnection

/-! ### What the server owes -/

namespace Backend

open BackendMessage PgConnection

variable (backend : Backend)

/-- An Execute now gets `rows` and then the end: a portal is open, or an error has been sent that is
still to be taken. -/
inductive Owes : Phase → List BackendMessage → List (List (Option Bytes)) → Option Bytes → Prop
  | portal {unread : List BackendMessage} {rows : List (List (Option Bytes))}
      {ending : Except Bytes Bytes} : (∀ m ∈ unread, m.extendsResult ∧ m.row? = none) →
      Owes (.portal rows ending) unread rows ending.toOption
  | failed {unread : List BackendMessage} {fields : Bytes} :
      (∀ m ∈ unread, m.extendsResult ∧ m.row? = none) →
      Owes .failed (unread ++ [.errorResponse fields]) [] none

/-- The message that ends the execution of the query. -/
def Finishes (tag? : Option Bytes) (e : BackendMessage) : Prop :=
  match tag? with
  | some tag => e = .commandComplete tag
  | none => ∃ fields, e = .errorResponse fields

theorem owes_prepared (q : Bytes) (values : List (Option Bytes)) :
    Owes (Responder.after backend.step .idle (prepared q values))
      (Responder.replies backend.step .idle (prepared q values))
      backend.answer.sent backend.answer.tag? := by
  cases hanswer : backend.answer with
  | parseError fields =>
    simp only [prepared, Responder.replies, Responder.after, step, hanswer]
    rw [← List.nil_append [BackendMessage.errorResponse fields]]
    exact .failed (List.forall_mem_nil _)
  | bindError fields =>
    simp only [prepared, Responder.replies, Responder.after, step, hanswer]
    rw [← List.singleton_append]
    exact .failed (by simp [extendsResult, row?])
  | runs rows ending =>
    simp only [prepared, Responder.replies, Responder.after, step, hanswer]
    have htag : Answer.tag? (.runs rows ending) = ending.toOption := by cases ending <;> rfl
    rw [htag]
    exact .portal (by simp [extendsResult, row?])

theorem rows_of_extends {unread : List BackendMessage}
    (h : ∀ m ∈ unread, m.extendsResult ∧ m.row? = none) (rows : List (List (Option Bytes))) :
    (∀ m ∈ unread ++ rows.map dataRow, m.extendsResult) ∧
      (unread ++ rows.map dataRow).filterMap row? = rows := by
  constructor
  · intro m hm
    rcases List.mem_append.mp hm with hm | hm
    · exact (h m hm).1
    · obtain ⟨row, -, rfl⟩ := List.mem_map.mp hm
      rfl
  · rw [List.filterMap_append, List.filterMap_eq_nil_iff.mpr fun m hm => (h m hm).2,
      List.nil_append, List.filterMap_map]
    exact List.filterMap_some

/-- An Execute gets a page of the rows behind which the portal is suspended, or all of them and the
end. -/
theorem page_cases {unread : List BackendMessage}
    (hunread : ∀ m ∈ unread, m.extendsResult ∧ m.row? = none) (maxRows : Nat)
    (rows : List (List (Option Bytes))) (ending : Except Bytes Bytes) :
    ∃ p e, unread ++ (backend.page maxRows rows ending).1 = p ++ [e] ∧ (∀ m ∈ p, m.extendsResult) ∧
      ((e = .portalSuspended ∧ ∃ rows', rows = p.filterMap row? ++ rows' ∧
          (backend.page maxRows rows ending).2 = .portal rows' ending) ∨
        e.endsResult ∧ p.filterMap row? = rows ∧ Finishes ending.toOption e ∧
          (backend.page maxRows rows ending).2 =
            if ending.toOption.isSome then .portal [] ending else .failed) := by
  by_cases hstops : backend.Stops maxRows rows
  · obtain ⟨hextends, hrows⟩ := rows_of_extends hunread (rows.take maxRows)
    refine ⟨unread ++ (rows.take maxRows).map dataRow, .portalSuspended, ?_, hextends,
      .inl ⟨rfl, rows.drop maxRows, ?_, ?_⟩⟩
    · unfold page
      rw [if_pos hstops, List.append_assoc]
    · rw [hrows, List.take_append_drop]
    · unfold page
      rw [if_pos hstops]
  · obtain ⟨hextends, hrows⟩ := rows_of_extends hunread rows
    unfold page
    rw [if_neg hstops]
    cases ending with
    | ok tag =>
      exact ⟨unread ++ rows.map dataRow, .commandComplete tag, (List.append_assoc _ _ _).symm, hextends,
        .inr ⟨rfl, hrows, rfl, rfl⟩⟩
    | error fields =>
      exact ⟨unread ++ rows.map dataRow, .errorResponse fields, (List.append_assoc _ _ _).symm, hextends,
        .inr ⟨rfl, hrows, ⟨fields, rfl⟩, rfl⟩⟩

theorem step_flush (phase : Phase) : backend.step phase .flush = ([], phase) := by
  cases phase <;> rfl

/-- What an Execute and a Flush get: a page of the rows that is suspended, or all of them and the
end, which is an error if the server has failed. -/
theorem Owes.execute {phase : Phase} {unread : List BackendMessage}
    {rows : List (List (Option Bytes))} {tag? : Option Bytes} (h : Owes phase unread rows tag?)
    (maxRows : Nat) :
    ∃ page e, unread ++ Responder.replies backend.step phase (executing maxRows) = page ++ [e] ∧
      (∀ m ∈ page, m.extendsResult) ∧
      ((e = .portalSuspended ∧ ∃ rows', rows = page.filterMap row? ++ rows' ∧
          Owes (Responder.after backend.step phase (executing maxRows)) [] rows' tag?) ∨
        e.endsResult ∧ page.filterMap row? = rows ∧ Finishes tag? e ∧
          (Responder.after backend.step phase (executing maxRows) = .failed ↔ tag? = none)) := by
  cases h with
  | @portal unread rows ending hunread =>
    obtain ⟨p, e, hp, hextends, hend⟩ := backend.page_cases hunread maxRows rows ending
    have hreplies : Responder.replies backend.step (.portal rows ending) (executing maxRows) =
        (backend.page maxRows rows ending).1 := by
      simp only [executing, Responder.replies, step_flush, List.append_nil]
      rfl
    have hafter : Responder.after backend.step (.portal rows ending) (executing maxRows) =
        (backend.page maxRows rows ending).2 := by
      simp only [executing, Responder.after, step_flush]
      rfl
    rw [hreplies, hafter]
    refine ⟨p, e, hp, hextends, ?_⟩
    rcases hend with ⟨he, rows', hrows, hphase⟩ | ⟨he, hrows, hfinishes, hphase⟩
    · rw [hphase]
      exact .inl ⟨he, rows', hrows, .portal (by simp)⟩
    · refine .inr ⟨he, hrows, hfinishes, ?_⟩
      rw [hphase]
      cases ending <;> simp [Except.toOption]
  | @failed unread fields hunread =>
    obtain ⟨hextends, hrows⟩ := rows_of_extends hunread []
    rw [List.map_nil, List.append_nil] at hextends hrows
    exact ⟨unread, .errorResponse fields, List.append_nil _, hextends,
      .inr ⟨rfl, hrows, ⟨fields, rfl⟩, iff_of_true rfl rfl⟩⟩

/-- Close and Sync get ReadyForQuery, behind CloseComplete unless there was an error. -/
theorem replies_closing (phase : Phase) : ∃ drained,
    Responder.replies backend.step phase closing = drained ++ [.readyForQuery backend.status] ∧
      ∀ m ∈ drained, m.type ≠ .noticeResponse ∧ m.type ≠ .readyForQuery := by
  cases phase with
  | failed => exact ⟨[], rfl, by simp⟩
  | _ => exact ⟨[.closeComplete], rfl, by simp [type]⟩

end Backend

section Pages

open PgConnection

/-- While `P` holds of the server, of what it has sent and of the rows that are left, an Execute gets a
page of them and `P` still holds, or all of them and the end; behind that, and the messages that close
the portal, the server is ready and `Q` holds of it. -/
def Responder.Pages {S : Type} (server : Responder BackendMessage S) (tag? : Option Bytes)
    (P : S → List BackendMessage → List (List (Option Bytes)) → Prop) (Q : S → Prop) : Prop :=
  ∀ s unread rows maxRows, P s unread rows →
    ∃ page e, unread ++ server.replies s (executing maxRows) = page ++ [e] ∧
      (∀ m ∈ page, m.extendsResult) ∧
      ((e = .portalSuspended ∧ ∃ rows', rows = page.filterMap BackendMessage.row? ++ rows' ∧
          P (server.after s (executing maxRows)) [] rows') ∨
        e.endsResult ∧ page.filterMap BackendMessage.row? = rows ∧ Backend.Finishes tag? e ∧
          ∃ drained status, server.replies (server.after s (executing maxRows)) closing =
              drained ++ [.readyForQuery status] ∧
            (∀ m ∈ drained, m.type ≠ .noticeResponse ∧ m.type ≠ .readyForQuery) ∧
            Q (server.after (server.after s (executing maxRows)) closing))

theorem Backend.pages (backend : Backend) (tag? : Option Bytes) :
    Responder.Pages backend.step tag?
      (fun phase unread rows => Owes phase unread rows tag?) fun _ => True := by
  intro phase unread rows maxRows howes
  obtain ⟨page, e, hpage, hextends, hend⟩ := howes.execute backend maxRows
  refine ⟨page, e, hpage, hextends, ?_⟩
  rcases hend with hsuspended | ⟨he, hrows, hfinishes, -⟩
  · exact .inl hsuspended
  · obtain ⟨drained, hdrained, hne⟩ := backend.replies_closing _
    exact .inr ⟨he, hrows, hfinishes, drained, backend.status, hdrained, hne, trivial⟩

end Pages

/-! ## The client -/

/-- The values of the rows. -/
def PgResult.contents (r : PgResult) : List (List (Option Bytes)) :=
  r.rows.map (List.map PgValue.content)

/-- How the last result says that the query went. -/
def PgResult.Concludes (r : PgResult) (tag? : Option Bytes) : Prop :=
  match tag? with
  | some tag => r.type = .success ∧ r.cmdTag = tag
  | none => r.type = .error

theorem PgResult.Renders.concludes {r : PgResult} {page : List BackendMessage} {e : BackendMessage}
    (h : r.Renders (page, e)) {tag? : Option Bytes} (he : Backend.Finishes tag? e) :
    r.Concludes tag? := by
  have hending := h.ending
  cases tag? with
  | some tag =>
    obtain rfl : e = .commandComplete tag := he
    exact hending
  | none =>
    obtain ⟨fields, rfl⟩ := he
    exact hending

namespace PgConnection

def pageRound (maxRows : Nat) (results : List PgResult) :
    Coro PgConnection Exn (List PgResult ⊕ List PgResult) := do
  let selection ← execute maxRows
  pure (if selection.type = .suspended then .inl (results ++ [selection])
    else .inr (results ++ [selection]))

/-- `prepare_query`, and `execute` as long as the result is suspended; the results of all of them. -/
def executePages (q : Bytes) (params : PgParams) (maxRows : Nat) :
    Coro PgConnection Exn (List PgResult) := do
  prepareQuery q params
  Coro.loop (fun c => c.sock.pending.length + 1) (pageRound maxRows) []

/-- At least these bytes have been written, and sends go on succeeding. -/
def HasWritten (w : Bytes) (c : PgConnection) : Prop :=
  c.output.SendsSucceed ∧ w <+: c.output.written

theorem HasWritten.of_wrote {w bs : Bytes} {c c' : PgConnection} (h : c.HasWritten w)
    (hw : c.output.Wrote bs c'.output) : c'.HasWritten w :=
  ⟨hw.1, h.2.trans ⟨bs, hw.2.symm⟩⟩

theorem preserves_execute (w : Bytes) (maxRows : Nat) :
    Coro.Preserves (HasWritten w) (execute maxRows) := by
  intro c hc
  obtain ⟨complete, hw, -⟩ := execute_wrote hc.1 maxRows
  exact hc.of_wrote hw

theorem HasWritten.congr {w : Bytes} {c c' : PgConnection} (h : c.HasWritten w)
    (hout : c'.output = c.output) : c'.HasWritten w := by
  rw [HasWritten, hout]
  exact h

theorem preserves_receiveExecute (w : Bytes) : Coro.Preserves (HasWritten w) receiveExecute :=
  fun c hc => hc.congr (keeps_receiveExecute output_isAside c)

theorem preserves_receiveClose (w : Bytes) : Coro.Preserves (HasWritten w) receiveClose :=
  fun c hc => hc.congr (keeps_receiveClose c)

theorem preserves_closeSync (w : Bytes) : Coro.Preserves (HasWritten w) closeSync :=
  fun _ hc => hc.of_wrote (closeSync_wrote hc.1)

theorem preserves_finishExecute (w : Bytes) (r : PgResult × Bool) :
    Coro.Preserves (HasWritten w) (finishExecute r) :=
  .ite ((preserves_closeSync w).bind fun _ => .pure _) (.pure _)

theorem preserves_pages (w : Bytes) (maxRows n : Nat) (results : List PgResult) :
    Coro.Preserves (HasWritten w) (Coro.iterate (pageRound maxRows) n results) :=
  .iterate (fun _ => (preserves_execute w maxRows).bind fun _ => .pure _) n results

theorem writeU32Be_mod (n : Nat) : writeU32Be (n % 2 ^ 32) = writeU32Be n := by
  have h : ∀ a b : Nat, a % 2 ^ 8 = b % 2 ^ 8 → UInt8.ofNat a = UInt8.ofNat b := by
    intro a b hab
    apply UInt8.toNat_inj.mp
    rw [UInt8.toNat_ofNat', UInt8.toNat_ofNat', hab]
  simp only [writeU32Be, writeU16Be, List.cons_append, List.nil_append, List.cons.injEq, and_true]
  exact ⟨h _ _ (by omega), h _ _ (by omega), h _ _ (by omega), h _ _ (by omega)⟩

/-- The length field of an Execute carries the limit modulo `2 ^ 32`. -/
theorem wire_executing (maxRows : Nat) :
    (executing maxRows).flatMap wire = (executing (maxRows % 2 ^ 32)).flatMap wire := by
  simp only [executing, List.flatMap_cons, wire, body, writeU32Be_mod]
  rfl

theorem sendable_executing (maxRows : Nat) : ∀ m ∈ executing (maxRows % 2 ^ 32),
    (m.WellFormed ∧ m.isStartup = false ∧ m.request? = none) ∧ m.body.length + 4 < 2 ^ 32 := by
  have hlt := Nat.mod_lt maxRows (by decide : 0 < 2 ^ 32)
  have hbody : (FrontendMessage.execute [] (maxRows % 2 ^ 32)).body.length + 4 < 2 ^ 32 := by
    rw [body, List.length_append, length_writeU32Be]
    decide
  intro m hm
  rcases List.mem_pair.mp hm with rfl | rfl
  · exact ⟨⟨⟨by simp, hlt⟩, rfl, rfl⟩, hbody⟩
  · exact ⟨⟨trivial, rfl, rfl⟩, by decide⟩

theorem sendable_closing : ∀ m ∈ closing,
    (m.WellFormed ∧ m.isStartup = false ∧ m.request? = none) ∧ m.body.length + 4 < 2 ^ 32 := by
  intro m hm
  rcases List.mem_pair.mp hm with rfl | rfl
  · exact ⟨⟨by simp [FrontendMessage.WellFormed], rfl, rfl⟩, by decide⟩
  · exact ⟨⟨trivial, rfl, rfl⟩, by decide⟩

variable {c : PgConnection} {S : Type} {server : Responder BackendMessage S} {final : Output}
  {goal s : S} {unread : List BackendMessage} {rows : List (List (Option Bytes))} {tag? : Option Bytes}
  {P : S → List BackendMessage → List (List (Option Bytes)) → Prop} {Q : S → Prop}

/-- Of an `execute` that is followed by `k`: it returns a page, or the end. -/
theorem Converses.turn {β : Type} (hpages : server.Pages tag? P Q)
    (h : c.Converses server final goal s unread) (howes : P s unread rows) (maxRows : Nat)
    {k : PgResult → Coro PgConnection Exn β} (hk : ∀ w r, Coro.Preserves (HasWritten w) (k r))
    (hfinal : final = ((execute maxRows >>= k).run c).2.output) :
    ∃ r c' s', (execute maxRows).run c = (.returned r, c') ∧ c'.Converses server final goal s' [] ∧
      ((r.type = .suspended ∧ c'.pending.length < c.pending.length ∧
          ∃ rows', rows = r.contents ++ rows' ∧ P s' [] rows') ∨
        (r.contents = rows ∧ r.Concludes tag? ∧ c'.queryReady = true ∧ Q s')) := by
  obtain ⟨c₁, hsend, hw⟩ := sends_execute maxRows c h.1
  rw [execute_eq, Coro.bind_assoc, Coro.bind_returned _ hsend] at hfinal
  have hwritten₁ : c₁.output.written <+: final.written := by
    have hrest : Coro.Preserves (HasWritten c₁.output.written)
        ((do
          let r ← receiveExecute
          finishExecute r) >>= k) :=
      ((preserves_receiveExecute _).bind (preserves_finishExecute _)).bind (hk _)
    rw [hfinal]
    exact (hrest c₁ ⟨hw.2.2.1, List.prefix_rfl⟩).2
  have hpending₁ : c₁.pending = c.pending := congrArg Input.pending hw.1
  rw [wire_executing] at hw
  have h₁ := h.send (sendable_executing maxRows) hw hwritten₁
  obtain ⟨page, e, hpage, hextends, hend⟩ := hpages s unread rows (maxRows % 2 ^ 32) howes
  rw [hpage] at h₁
  obtain ⟨r, c₂, hreceive, hpaged, h₂, hout₂, hlt₂⟩ := h₁.page hextends
    (hend.elim (fun he => .inr he.1) fun he => .inl he.1)
  rw [hpending₁] at hlt₂
  rw [Coro.bind_assoc, Coro.bind_returned _ hreceive] at hfinal
  have hrun : ∀ {o : Outcome Exn PgResult × PgConnection}, (finishExecute r).run c₂ = o →
      (execute maxRows).run c = o := by
    intro o ho
    rw [execute_eq, Coro.bind_returned _ hsend, Coro.bind_returned _ hreceive, ho]
  obtain ⟨r, complete⟩ := r
  rcases hpaged with ⟨rfl, he, hrenders⟩ | ⟨rfl, rfl, hgathers, htype⟩
  -- the end: `close_sync` follows
  · obtain ⟨hrows, hfinishes, drained, status, hdrained, hne, hdone⟩ :=
      (hend.resolve_left fun hsuspended => by
        rw [hsuspended.1] at he
        cases he).2
    obtain ⟨c₃, hsend₃, hw₃⟩ := sends_close c₂ h₂.1
    have hclose : (finishExecute (r, true)) = (do
        onSock (Socket.write (['C'.toUInt8, 0, 0, 0, 6, 'P'.toUInt8, 0] ++ ['S'.toUInt8, 0, 0, 0, 4]))
        onSock Socket.flush) >>= fun _ => receiveClose >>= fun _ => pure r := by
      rw [finishExecute, if_pos rfl, closeSync_eq, Coro.bind_assoc]
    have hwritten₃ : c₃.output.written <+: final.written := by
      rw [hfinal, hclose, Coro.bind_assoc, Coro.bind_returned _ hsend₃]
      have hpreserves := Coro.Preserves.bind (Coro.Preserves.bind
        (preserves_receiveClose c₃.output.written) fun _ => .pure r) (hk _)
      exact (hpreserves c₃ ⟨hw₃.2.2.1, List.prefix_rfl⟩).2
    have h₃ := h₂.send sendable_closing hw₃ hwritten₃
    rw [hdrained, List.nil_append] at h₃
    obtain ⟨c₄, hreceive₄, h₄, hready⟩ := h₃.drain hne rfl
    refine ⟨r, c₄, _, hrun ?_, h₄, .inr ⟨?_, hrenders.concludes hfinishes, hready, hdone⟩⟩
    · rw [hclose, Coro.bind_returned _ hsend₃, Coro.bind_returned _ hreceive₄, Coro.run_pure]
    · rw [PgResult.contents, hrenders.gathers.rows, hrows]
  -- the limit
  · obtain ⟨rows', hrows, howes'⟩ := (hend.resolve_right fun hends => by cases hends.1).2
    refine ⟨r, c₂, _, hrun rfl, h₂, .inl ⟨htype, by omega, rows', ?_, howes'⟩⟩
    rw [PgResult.contents, hgathers.rows, hrows]

/-- The loop over the pages, followed by `k`. -/
theorem Converses.turns {β : Type} (hpages : server.Pages tag? P Q) (maxRows n : Nat)
    (h : c.Converses server final goal s unread) (howes : P s unread rows) (results : List PgResult)
    {k : List PgResult → Coro PgConnection Exn β} (hk : ∀ w r, Coro.Preserves (HasWritten w) (k r))
    (hfinal : final = ((Coro.iterate (pageRound maxRows) n results >>= k).run c).2.output)
    (hn : c.pending.length < n) :
    ∃ results' last c' s', (Coro.iterate (pageRound maxRows) n results).run c =
        (.returned (results ++ results' ++ [last]), c') ∧
      (∀ r ∈ results', r.type = .suspended) ∧
      (results' ++ [last]).flatMap PgResult.contents = rows ∧ last.Concludes tag? ∧
      c'.queryReady = true ∧ Q s' ∧ c'.Converses server final goal s' [] := by
  induction n generalizing c s unread rows results with
  | zero => omega
  | succ n ih =>
    have hiterate : Coro.iterate (pageRound maxRows) (n + 1) results =
        execute maxRows >>= fun selection =>
          if selection.type = .suspended then
            Coro.iterate (pageRound maxRows) n (results ++ [selection])
          else pure (results ++ [selection]) := by
      rw [Coro.iterate, pageRound, Coro.bind_assoc]
      congr 1
      funext selection
      by_cases htype : selection.type = .suspended
      · rw [if_pos htype, if_pos htype]
        rfl
      · rw [if_neg htype, if_neg htype]
        rfl
    rw [hiterate, Coro.bind_assoc] at hfinal
    obtain ⟨r, c', s', hrun, h', hturn⟩ := Converses.turn hpages h howes maxRows
      (fun w selection => Coro.Preserves.bind
        (.ite (preserves_pages w maxRows n _) (.pure _)) (hk w)) hfinal
    rw [Coro.bind_returned _ hrun] at hfinal
    rw [hiterate, Coro.bind_returned _ hrun]
    rcases hturn with ⟨htype, hlt, rows', rfl, howes'⟩ | ⟨rfl, hconcludes, hready, hdone⟩
    · rw [if_pos htype] at hfinal ⊢
      obtain ⟨results', last, c'', s'', hrun', hsuspended, hrows, hlast⟩ :=
        ih h' howes' (results ++ [r]) hfinal (by omega)
      refine ⟨r :: results', last, c'', s'', ?_, List.forall_mem_cons.mpr ⟨htype, hsuspended⟩, ?_,
        hlast⟩
      · rw [hrun', List.append_assoc results, List.singleton_append]
      · rw [List.cons_append, List.flatMap_cons, hrows]
    · have htype : r.type ≠ .suspended := by
        cases tag? with
        | some tag =>
          rw [hconcludes.1]
          decide
        | none =>
          have herror : r.type = .error := hconcludes
          rw [herror]
          decide
      rw [if_neg htype, Coro.run_pure]
      exact ⟨[], r, c', s', by rw [List.append_nil], by simp,
        by rw [List.nil_append, List.flatMap_singleton], hconcludes, hready, hdone, h'⟩

/-- A whole query, followed by `k`. -/
theorem Converses.executePages {β : Type} (hpages : server.Pages tag? P Q)
    (hready : c.queryReady = true) (h : c.Converses server final goal s []) {q : Bytes}
    {stores : List (StoreArg × List StoreArg)} (hcall : (Call.prepareQuery q stores).WellFormed)
    (hlength : ∀ m ∈ prepared q ((PgParams.stored stores).map StoreArg.content),
      m.wire.length < 2 ^ 31) (maxRows : Nat)
    (howes : P (server.after s (prepared q ((PgParams.stored stores).map StoreArg.content)))
      (server.replies s (prepared q ((PgParams.stored stores).map StoreArg.content))) rows)
    {k : List PgResult → Coro PgConnection Exn β} (hk : ∀ w r, Coro.Preserves (HasWritten w) (k r))
    (hfinal : final = ((PgConnection.executePages q (PgParams.new.storeCalls stores).1 maxRows >>=
      k).run c).2.output) :
    ∃ results last c' s', (PgConnection.executePages q (PgParams.new.storeCalls stores).1 maxRows).run c =
        (.returned (results ++ [last]), c') ∧
      (∀ r ∈ results, r.type = .suspended) ∧
      (results ++ [last]).flatMap PgResult.contents = rows ∧ last.Concludes tag? ∧
      c'.queryReady = true ∧ Q s' ∧ c'.Converses server final goal s' [] := by
  obtain ⟨c₁, hsend, hw⟩ := sends_prepare q (buffer_storeCalls fun a ha => (hcall.2.1 a ha).inRange) c h.1
  have hprepare : (prepareQuery q (PgParams.new.storeCalls stores).1).run c =
      (.returned (), { c₁ with queryReady := false }) := by
    rw [prepareQuery, Coro.run_get_bind, if_neg (not_not.mpr hready), Coro.bind_returned _ hsend]
    rfl
  have hrun : (PgConnection.executePages q (PgParams.new.storeCalls stores).1 maxRows).run c =
      (Coro.iterate (pageRound maxRows) (c₁.pending.length + 1) []).run
        { c₁ with queryReady := false } := by
    rw [PgConnection.executePages, Coro.bind_returned _ hprepare]
    rfl
  rw [Coro.run_bind, hrun, ← Coro.run_bind] at hfinal
  rw [hrun]
  have hsendable : ∀ m ∈ prepared q ((PgParams.stored stores).map StoreArg.content),
      (m.WellFormed ∧ m.isStartup = false ∧ m.request? = none) ∧ m.body.length + 4 < 2 ^ 32 := by
    intro m hm
    have hintends : Ended.Intends ⟨.prepareQuery q stores, true, .suspended⟩
        (prepared q ((PgParams.stored stores).map StoreArg.content)) := rfl
    have := hlength m hm
    have := length_body_le m
    exact ⟨wellFormed_intended hintends hcall m hm, by omega⟩
  have hw' : c.sock.Writes ((prepared q ((PgParams.stored stores).map StoreArg.content)).flatMap wire)
      ({ c₁ with queryReady := false } : PgConnection).sock := hw
  have hwritten₁ : c₁.output.written <+: final.written := by
    rw [hfinal]
    exact (((preserves_pages _ maxRows _ _).bind (hk _)) { c₁ with queryReady := false }
      ⟨hw.2.2.1, List.prefix_rfl⟩).2
  exact Converses.turns hpages maxRows (c₁.pending.length + 1) (h.send hsendable hw' hwritten₁) howes []
    hk hfinal (Nat.lt_succ_self _)

/-- Against a server that answers what the client writes in this run, the pages make up the rows that
the server sends, the last result says how the query went, and the connection is ready for the next
one with nothing unread. -/
theorem execute_pages {backend : Backend} (hready : c.queryReady = true) {q : Bytes}
    {stores : List (StoreArg × List StoreArg)} (hcall : (Call.prepareQuery q stores).WellFormed)
    (hlength : ∀ m ∈ prepared q ((PgParams.stored stores).map StoreArg.content),
      m.wire.length < 2 ^ 31) (maxRows : Nat)
    (h : c.Talks backend
      ((executePages q (PgParams.new.storeCalls stores).1 maxRows).run c).2.output .idle []) :
    ∃ results last c', (executePages q (PgParams.new.storeCalls stores).1 maxRows).run c =
        (.returned (results ++ [last]), c') ∧
      (∀ r ∈ results, r.type = .suspended) ∧
      (results ++ [last]).flatMap PgResult.contents = backend.answer.sent ∧
      last.Concludes backend.answer.tag? ∧ c'.queryReady = true ∧ c'.pending = [] := by
  obtain ⟨goal, h⟩ := h
  have howes := backend.owes_prepared q ((PgParams.stored stores).map StoreArg.content)
  obtain ⟨results, last, c', s', hrun, hsuspended, hrows, hconcludes, hready', -, h'⟩ :=
    Converses.executePages (backend.pages _) hready h hcall hlength maxRows howes (k := pure)
      (fun _ _ => .pure _) (congrArg output (Coro.run_bind_pure_snd _ id c).symm)
  rw [hrun] at h'
  exact ⟨results, last, c', hrun, hsuspended, hrows, hconcludes, hready', h'.stop.1.pending_nil⟩

/-- Three rows in pages of two. -/
theorem execute_pages_three :
    let backend : Backend :=
      { answer := .runs [[some (ascii "a")], [none], [some (ascii "b")]] (.ok (ascii "SELECT 3"))
        lookahead := false
        status := 'I'.toUInt8
        refusal := [] }
    ∃ c results last c', (executePages (ascii "s") (PgParams.new.storeCalls []).1 2).run c =
        (.returned (results ++ [last]), c') ∧
      (∀ r ∈ results, r.type = .suspended) ∧
      (results ++ [last]).flatMap PgResult.contents = backend.answer.sent ∧
      last.Concludes backend.answer.tag? ∧ c'.queryReady = true ∧ c'.pending = [] := by
  intro backend
  let rs : List Reply := [
    ⟨.parseComplete, by decide, trivial⟩,
    ⟨.bindComplete, by decide, trivial⟩,
    ⟨.dataRow [some (ascii "a")], by decide, by decide⟩,
    ⟨.dataRow [none], by decide, by decide⟩,
    ⟨.portalSuspended, by decide, trivial⟩,
    ⟨.dataRow [some (ascii "b")], by decide, by decide⟩,
    ⟨.commandComplete (ascii "SELECT 3"), by decide, (by decide : 0 ∉ ascii "SELECT 3")⟩,
    ⟨.closeComplete, by decide, trivial⟩,
    ⟨.readyForQuery 'I'.toUInt8, by decide, trivial⟩]
  let c : PgConnection := ⟨Socket.incoming (rs.map Reply.frame) (by decide) [], true⟩
  let sent := prepared (ascii "s") [] ++ executing 2 ++ executing 2 ++ closing
  have hwritten : ((executePages (ascii "s") (PgParams.new.storeCalls []).1 2).run c).2.output.written =
      [] ++ sent.flatMap wire := by decide +kernel
  have hparse : Frontend.parseMessages 8 [] (sent.flatMap wire) = some sent := by decide +kernel
  have hreplies : Responder.replies backend.step .idle sent = rs.map Reply.message := by decide +kernel
  have hcall : (Call.prepareQuery (ascii "s") []).WellFormed := by
    refine ⟨by decide, ?_, by decide⟩
    intro a ha
    cases ha
  exact ⟨c, execute_pages (c := c) rfl hcall (by decide) 2
    ⟨_, fun _ => ⟨0, rfl⟩, _, 8, sent, hwritten, hparse, rfl, rs,
      hreplies ▸ List.Carry.of_map rs, incoming_run _ _ [] true⟩⟩

end PgConnection

end CppEvent
