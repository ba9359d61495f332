import CppEvent.Postgres.Paging

/-!
# A client and its database

A client that runs simple queries and pages through prepared ones, in any order, against a server whose
data they read and change (`Database.serve`). The server only sees the bytes that the client writes, and
the client only the bytes of the replies; and yet the client finds what the database computes when it
performs the commands one after another (`session`).
-/

namespace CppEvent

open Coroutine FrontendMessage

/-- The rows of a query, and its command tag or the fields of its error. -/
abbrev Table := List (List (Option Bytes)) × Except Bytes Bytes

/-- A database with the data `D`. The text of a query that is prepared is refused by `parse` or bound to
values by `bind`, which may still fail; what is in place of a result are the fields of the error. Of a
query that succeeds the data come with its result. -/
structure Database (D : Type) where
  simple : D → Bytes → List BackendMessage × D
  parse : D → Bytes → Option Bytes
  bind : D → Bytes → List (Option Bytes) → Except Bytes Table × D
  status : D → Byte
  /-- Its way of cutting pages and its error for a message out of order. -/
  pager : Backend
  answers : ∀ d q, ∀ m ∈ (simple d q).1, m.answersQuery ∧ m.type ≠ .noticeResponse

namespace Database

variable {D : Type} (db : Database D)

/-! ## What it computes -/

/-- What becomes of a prepared query. -/
def answer (d : D) (q : Bytes) (values : List (Option Bytes)) : Answer :=
  match db.parse d q with
  | some fields => .parseError fields
  | none =>
      match (db.bind d q values).1 with
      | .error fields => .bindError fields
      | .ok (rows, ending) => .runs rows ending

inductive Command where
  | simple (q : Bytes)
  | paged (q : Bytes) (stores : List (StoreArg × List StoreArg)) (maxRows : Nat)

/-- What comes of a command. -/
inductive Computed where
  | messages (ms : List BackendMessage)
  | table (rows : List (List (Option Bytes))) (tag? : Option Bytes)

/-- A command, and the data behind it: those before if it fails. -/
def perform (d : D) : Command → Computed × D
  | .simple q => (.messages (db.simple d q).1, (db.simple d q).2)
  | .paged q stores _ =>
      let values := (PgParams.stored stores).map StoreArg.content
      let answer := db.answer d q values
      (.table answer.sent answer.tag?, if answer.tag?.isSome then (db.bind d q values).2 else d)

def performAll (d : D) : List Command → List Computed × D
  | [] => ([], d)
  | cmd :: cmds =>
      let (computed, d') := db.perform d cmd
      let (rest, d'') := performAll d' cmds
      (computed :: rest, d'')

/-! ## How it serves -/

/-- How far the server is with a prepared query: `portal` has the data behind it if nothing fails. -/
inductive Serving (D : Type) where
  | idle (d : D)
  | parsed (d : D) (q : Bytes)
  | portal (d d' : D) (phase : Backend.Phase)

/-- The data that a Sync leaves. -/
def Serving.data : Serving D → D
  | idle d => d
  | parsed d _ => d
  | portal d d' phase => if phase = .failed then d else d'

/-- The replies to a message. After an error everything up to the next Sync is ignored. -/
def serve (s : Serving D) (m : FrontendMessage) : List BackendMessage × Serving D :=
  match s, m with
  | s, .sync => ([.readyForQuery (db.status s.data)], .idle s.data)
  | .portal d d' .failed, _ => ([], .portal d d' .failed)
  | s, .flush => ([], s)
  | .idle d, .query q =>
      ((db.simple d q).1 ++ [.readyForQuery (db.status (db.simple d q).2)], .idle (db.simple d q).2)
  | .idle d, .parse _ q _ =>
      match db.parse d q with
      | some fields => ([.errorResponse fields], .portal d d .failed)
      | none => ([.parseComplete], .parsed d q)
  | .parsed d q, .bind _ _ _ values _ =>
      match db.bind d q values with
      | (.error fields, _) => ([.errorResponse fields], .portal d d .failed)
      | (.ok (rows, ending), d') => ([.bindComplete], .portal d d' (.portal rows ending))
  | .portal d d' (.portal rows ending), .execute _ maxRows =>
      let (ms, phase) := db.pager.page maxRows rows ending
      (ms, .portal d d' phase)
  | .portal d d' _, .closePortal _ => ([.closeComplete], .portal d d' .parsed)
  | s, _ => ([.errorResponse db.pager.refusal], .portal s.data s.data .failed)

/-! ### Pages -/

open BackendMessage PgConnection

/-- An Execute gets `rows` and then the end, behind which the data are `final`. -/
def Owes (tag? : Option Bytes) (final : D) : Serving D → List BackendMessage →
    List (List (Option Bytes)) → Prop
  | .portal d d' phase, unread, rows =>
      Backend.Owes phase unread rows tag? ∧ final = if tag?.isSome then d' else d
  | _, _, _ => False

/-- While it owes an answer, the server does to an Execute what its pager does. -/
theorem serve_executing {phase : Backend.Phase} {unread : List BackendMessage}
    {rows : List (List (Option Bytes))} {tag? : Option Bytes}
    (h : Backend.Owes phase unread rows tag?) (d d' : D) (maxRows : Nat) :
    Responder.replies db.serve (.portal d d' phase) (executing maxRows) =
        Responder.replies db.pager.step phase (executing maxRows) ∧
      Responder.after db.serve (.portal d d' phase) (executing maxRows) =
        .portal d d' (Responder.after db.pager.step phase (executing maxRows)) := by
  have hflush (phase : Backend.Phase) :
      db.serve (.portal d d' phase) .flush = ([], .portal d d' phase) := by
    cases phase <;> rfl
  cases h with
  | @portal _ _ ending =>
    have hpage : db.serve (.portal d d' (.portal rows ending)) (.execute [] maxRows) =
        ((db.pager.page maxRows rows ending).1,
          .portal d d' (db.pager.page maxRows rows ending).2) := rfl
    simp only [executing, Responder.replies, Responder.after, hpage, hflush, Backend.step_flush]
    exact ⟨rfl, rfl⟩
  | failed => exact ⟨rfl, rfl⟩

theorem serve_closing (d d' : D) (phase : Backend.Phase) : ∃ drained,
    Responder.replies db.serve (.portal d d' phase) closing =
        drained ++ [.readyForQuery (db.status (if phase = .failed then d else d'))] ∧
      (∀ m ∈ drained, m.type ≠ .noticeResponse ∧ m.type ≠ .readyForQuery) ∧
      Responder.after db.serve (.portal d d' phase) closing =
        .idle (if phase = .failed then d else d') := by
  cases phase with
  | failed => exact ⟨[], rfl, by simp, rfl⟩
  | _ => exact ⟨[.closeComplete], rfl, by simp [type], rfl⟩

theorem pages (tag? : Option Bytes) (final : D) :
    Responder.Pages db.serve tag? (Owes tag? final) (· = .idle final) := by
  intro s unread rows maxRows howes
  cases s with
  | portal d d' phase =>
    obtain ⟨howes, hfinal⟩ := howes
    obtain ⟨hreplies, hafter⟩ := db.serve_executing howes d d' maxRows
    obtain ⟨page, e, hpage, hextends, hend⟩ := howes.execute db.pager maxRows
    rw [hreplies, hafter]
    refine ⟨page, e, hpage, hextends, ?_⟩
    rcases hend with ⟨he, rows', hrows, howes'⟩ | ⟨he, hrows, hfinishes, hfailed⟩
    · exact .inl ⟨he, rows', hrows, howes', hfinal⟩
    · obtain ⟨drained, hdrained, hne, hclosed⟩ := db.serve_closing d d'
        (Responder.after db.pager.step phase (executing maxRows))
      refine .inr ⟨he, hrows, hfinishes, drained, _, hdrained, hne, ?_⟩
      rw [hclosed, hfinal]
      cases tag? with
      | some tag =>
        rw [if_neg (by simp [hfailed])]
        rfl
      | none =>
        rw [if_pos (hfailed.mpr rfl)]
        rfl
  | _ => exact howes.elim

/-- To the messages that prepare a query the server replies as one with this answer. -/
theorem serve_prepared (d : D) (q : Bytes) (values : List (Option Bytes)) :
    let backend : Backend := { db.pager with answer := db.answer d q values }
    ∃ d', Responder.replies db.serve (.idle d) (prepared q values) =
        Responder.replies backend.step .idle (prepared q values) ∧
      Responder.after db.serve (.idle d) (prepared q values) =
        .portal d d' (Responder.after backend.step .idle (prepared q values)) ∧
      ((db.answer d q values).tag?.isSome → d' = (db.bind d q values).2) := by
  intro backend
  have hanswer : backend.answer = db.answer d q values := rfl
  unfold answer at hanswer ⊢
  cases hparse : db.parse d q with
  | some fields =>
    rw [hparse] at hanswer
    simp only [prepared, Responder.replies, Responder.after, serve, Backend.step, hparse, hanswer]
    exact ⟨d, trivial, rfl, fun h => by cases h⟩
  | none =>
    rcases hbind : db.bind d q values with ⟨fields | ⟨rows, ending⟩, d'⟩
    · rw [hparse, hbind] at hanswer
      simp only [prepared, Responder.replies, Responder.after, serve, Backend.step, hparse, hbind,
        hanswer]
      exact ⟨d, trivial, rfl, fun h => by cases h⟩
    · rw [hparse, hbind] at hanswer
      simp only [prepared, Responder.replies, Responder.after, serve, Backend.step, hparse, hbind,
        hanswer]
      exact ⟨d', trivial, rfl, fun _ => rfl⟩

/-- Behind the messages that prepare a query the server owes its answer. -/
theorem owes_prepared (d : D) (q : Bytes) (values : List (Option Bytes)) :
    Owes (db.answer d q values).tag?
      (if (db.answer d q values).tag?.isSome then (db.bind d q values).2 else d)
      (Responder.after db.serve (.idle d) (prepared q values))
      (Responder.replies db.serve (.idle d) (prepared q values)) (db.answer d q values).sent := by
  obtain ⟨d', hreplies, hafter, hdata⟩ := db.serve_prepared d q values
  rw [hreplies, hafter]
  refine ⟨Backend.owes_prepared _ q values, ?_⟩
  split
  · rename_i hsome
    exact (hdata hsome).symm
  · rfl

/-- A counter: a simple query counts one up, and a prepared one has as many rows. -/
def counter : Database Nat where
  simple d _ := ([.commandComplete (ascii "UPDATE 1")], d + 1)
  parse _ _ := none
  bind d _ _ := (.ok (List.replicate d [none], .ok (ascii "SELECT 1")), d)
  status _ := 'I'.toUInt8
  pager :=
    { answer := .parseError []
      lookahead := false
      status := 'I'.toUInt8
      refusal := [] }
  answers _ _ := List.forall_mem_singleton.mpr ⟨rfl, by simp [type]⟩

end Database

/-! ## The client -/

namespace PgConnection

open Database

variable {c : PgConnection}

/-- Before a round of the receive loop of `query`: `rest` is still to come of the messages. -/
def Hearing (ms : List BackendMessage) (status : Byte) (more : List BackendMessage)
    (results : PgResults) (c : PgConnection) : Prop :=
  ∃ done cur rest, results.Collects done cur ∧ BackendMessage.groups [] ms = done ++ BackendMessage.groups cur rest ∧
    (∀ m ∈ rest, m.answersQuery ∧ m.type ≠ .noticeResponse) ∧ c.queryReady = false ∧
    c.Hears (rest ++ .readyForQuery status :: more)

def Heard (ms more : List BackendMessage) (results : PgResults) (c : PgConnection) : Prop :=
  (∃ cur, results.Collects (BackendMessage.groups [] ms) cur) ∧ c.queryReady = true ∧ c.Hears more

theorem queryRound_hears {ms more : List BackendMessage} {status : Byte} {results : PgResults}
    (h : Hearing ms status more results c) :
    ∃ results' c', (queryRound results).run c = (.returned (.inl results'), c') ∧
      (Hearing ms status more results' c' ∨ Heard ms more results' c') ∧
      c'.output = c.output ∧ c'.pending.length < c.pending.length := by
  obtain ⟨done, cur, rest, hresults, hgroups, hrest, hready, hhears⟩ := h
  cases rest with
  | nil =>
    obtain ⟨r, rs, c₁, hr, hinfo, hdelivers, hnext, -, hout₁, hlt₁⟩ :=
      hhears.receive (by simp [BackendMessage.type])
    obtain ⟨c₂, hskip, hc₂⟩ := hdelivers.skip
    have hlength := hc₂.length_pending
    have htype : r.frame.type = .readyForQuery := by rw [Reply.type_frame, hr]; rfl
    have hswitch : (querySwitch results ⟨r.frame.type, r.frame.size⟩).run c₁ =
        (.returned results, { c₂ with queryReady := true }) := by
      rw [querySwitch_readyForQuery htype, Coro.bind_returned _ hskip]
      rfl
    rw [BackendMessage.groups, List.append_nil] at hgroups
    refine ⟨results, { c₂ with queryReady := true }, ?_,
      .inr ⟨⟨cur, hgroups ▸ hresults⟩, rfl, (hnext c₂ hc₂).congr rfl⟩, hc₂.1.2.1.trans hout₁, ?_⟩
    · rw [queryRound, Coro.run_get_bind, if_neg (by simp [hready]), Coro.bind_returned _ hinfo,
        Coro.bind_returned _ hswitch, Coro.run_pure]
    · change c₂.pending.length < _
      omega
  | cons m rest =>
    obtain ⟨⟨hm, hnotice⟩, hrest'⟩ := List.forall_mem_cons.mp hrest
    obtain ⟨r, rs, c₁, rfl, hinfo, hdelivers, hnext, hready₁, hout₁, hlt₁⟩ := hhears.receive hnotice
    obtain ⟨results', c₂, hswitch, hc₂, hcollects⟩ := querySwitch_run hdelivers hm hnotice hresults
    have hlength := hc₂.length_pending
    refine ⟨results', c₂, ?_, .inl ?_, hc₂.1.2.1.trans hout₁, by omega⟩
    · rw [queryRound, Coro.run_get_bind, if_neg (by simp [hready]), Coro.bind_returned _ hinfo,
        Coro.bind_returned _ hswitch, Coro.run_pure]
    · have hready₂ : c₂.queryReady = false := by rw [hc₂.2, hready₁, hready]
      rw [BackendMessage.groups] at hgroups
      rcases hcollects with ⟨hends, hcollects⟩ | ⟨hends, hcollects⟩
      · rw [hends, if_pos rfl, ← List.singleton_append, ← List.append_assoc] at hgroups
        exact ⟨_, _, rest, hcollects, hgroups, hrest', hready₂, hnext c₂ hc₂⟩
      · rw [hends, if_neg Bool.false_ne_true] at hgroups
        exact ⟨_, _, rest, hcollects, hgroups, hrest', hready₂, hnext c₂ hc₂⟩

theorem receiveQuery_hears {ms more : List BackendMessage} {status : Byte}
    (hms : ∀ m ∈ ms, m.answersQuery ∧ m.type ≠ .noticeResponse) (hready : c.queryReady = false)
    (h : c.Hears (ms ++ .readyForQuery status :: more)) :
    ∃ results c', receiveQuery.run c = (.returned results, c') ∧ Heard ms more results c' ∧
      c'.output = c.output := by
  have hstart : Hearing ms status more { done := [], back := .empty } c :=
    ⟨[], [], ms, ⟨.nil, PgResult.gathers_empty, rfl⟩, rfl, hms, hready, h⟩
  refine Coro.loop_returns _ queryRound
    (fun results c₁ => (Hearing ms status more results c₁ ∨ Heard ms more results c₁) ∧
      c₁.output = c.output)
    (fun results c₁ => Heard ms more results c₁ ∧ c₁.output = c.output)
    (fun _ c₁ => c₁.pending.length) _ c ⟨.inl hstart, rfl⟩ (Nat.lt_succ_self _) ?_
  rintro results c₁ ⟨h | h, hout⟩
  · left
    obtain ⟨results', c₂, hrun, hnext, hout₂, hlt⟩ := queryRound_hears h
    exact ⟨results', c₂, hrun, ⟨hnext, hout₂.trans hout⟩, hlt⟩
  · right
    refine ⟨results, c₁, ?_, h, hout⟩
    rw [queryRound, Coro.run_get_bind, if_pos h.2.1, Coro.run_pure]

/-! ### Commands -/

def run : Command → Coro PgConnection Exn (List PgResult)
  | .simple q => query q
  | .paged q stores maxRows => executePages q (PgParams.new.storeCalls stores).1 maxRows

def runAll : List Command → Coro PgConnection Exn (List (List PgResult))
  | [] => pure []
  | cmd :: cmds => do
      let results ← run cmd
      let rest ← runAll cmds
      pure (results :: rest)

/-- The texts are free of NUL, the values are in their ranges, and every message has a length. -/
def Sendable : Command → Prop
  | .simple q => 0 ∉ q ∧ (FrontendMessage.query q).wire.length < 2 ^ 31
  | .paged q stores _ => (Call.prepareQuery q stores).WellFormed ∧
      ∀ m ∈ prepared q ((PgParams.stored stores).map StoreArg.content), m.wire.length < 2 ^ 31

/-- The results say what has been computed. -/
def Shows (results : List PgResult) : Computed → Prop
  | .messages ms => List.Forall₂ PgResult.Renders results (BackendMessage.groups [] ms)
  | .table rows tag? => ∃ pages last, results = pages ++ [last] ∧
      (∀ r ∈ pages, r.type = .suspended) ∧ results.flatMap PgResult.contents = rows ∧
      last.Concludes tag?

theorem preserves_run (w : Bytes) {cmd : Command} (hcmd : Sendable cmd) :
    Coro.Preserves (HasWritten w) (run cmd) := by
  cases cmd with
  | simple q => exact fun c hc => hc.of_wrote (query_wrote hc.1 q)
  | paged q stores maxRows =>
    have hprepare : Coro.Preserves (HasWritten w)
        (prepareQuery q (PgParams.new.storeCalls stores).1) :=
      fun c hc => hc.of_wrote (prepareQuery_wrote hc.1 q
        (buffer_storeCalls fun a ha => (hcmd.1.2.1 a ha).inRange))
    exact hprepare.bind fun _ => .loop
      (fun _ => .bind (preserves_execute w maxRows) fun _ => .pure _) _

theorem preserves_runAll (w : Bytes) {cmds : List Command} (hcmds : ∀ cmd ∈ cmds, Sendable cmd) :
    Coro.Preserves (HasWritten w) (runAll cmds) := by
  induction cmds with
  | nil => exact .pure _
  | cons cmd cmds ih =>
    obtain ⟨hcmd, hcmds⟩ := List.forall_mem_cons.mp hcmds
    exact (preserves_run w hcmd).bind fun _ => (ih hcmds).bind fun _ => .pure _

variable {D : Type} {db : Database D} {final : Output} {goal : Serving D} {d : D} {β : Type}
  {k : List PgResult → Coro PgConnection Exn β}

theorem Converses.simple (hready : c.queryReady = true)
    (h : c.Converses db.serve final goal (.idle d) []) {q : Bytes} (hq : Sendable (.simple q))
    (hk : ∀ w r, Coro.Preserves (HasWritten w) (k r))
    (hfinal : final = ((query q >>= k).run c).2.output) :
    ∃ results c', (query q).run c = (.returned results, c') ∧
      Shows results (.messages (db.simple d q).1) ∧ c'.queryReady = true ∧
      c'.Converses db.serve final goal (.idle (db.simple d q).2) [] := by
  obtain ⟨c₁, hsend, hw⟩ := sends_query q c h.1
  have hset : (setQueryReady false).run c₁ = (.returned (), { c₁ with queryReady := false }) := rfl
  have hstart : (query q).run c =
      (receiveQuery >>= fun results => pure results.done).run { c₁ with queryReady := false } := by
    rw [query, Coro.run_get_bind, if_neg (not_not.mpr hready), Coro.bind_returned _ hsend,
      Coro.bind_returned _ hset]
  have hwritten₁ : c₁.output.written <+: final.written := by
    have hreceive : Coro.Preserves (HasWritten c₁.output.written) receiveQuery :=
      fun c hc => hc.congr (keeps_receiveQuery c)
    rw [hfinal, Coro.run_bind, hstart, ← Coro.run_bind]
    exact ((hreceive.bind fun _ => .pure _).bind (hk _) { c₁ with queryReady := false }
      ⟨hw.2.2.1, List.prefix_rfl⟩).2
  have hquery : ∀ m ∈ [FrontendMessage.query q],
      (m.WellFormed ∧ m.isStartup = false ∧ m.request? = none) ∧ m.body.length + 4 < 2 ^ 32 := by
    have := length_body_le (.query q)
    have := hq.2
    exact List.forall_mem_singleton.mpr ⟨⟨hq.1, rfl, rfl⟩, by omega⟩
  have hw' : c.sock.Writes ([FrontendMessage.query q].flatMap wire)
      ({ c₁ with queryReady := false } : PgConnection).sock := by
    rw [List.flatMap_singleton]
    exact hw
  have h₁ := h.send hquery hw' hwritten₁
  obtain ⟨hsends, bs, n, sent, hbs, hparse, hgoal, hhears⟩ := h₁
  have hreplies : [] ++ Responder.replies db.serve (.idle d) [.query q] =
      (db.simple d q).1 ++ .readyForQuery (db.status (db.simple d q).2) :: [] :=
    List.append_nil _
  rw [hreplies, List.append_assoc, List.cons_append, List.nil_append] at hhears
  obtain ⟨results, c₂, hreceive, ⟨⟨cur, hcollects⟩, hready₂, hhears₂⟩, hout⟩ :=
    receiveQuery_hears (db.answers d q) rfl hhears
  refine ⟨results.done, c₂, ?_, hcollects.done, hready₂, hout ▸ hsends, bs, n, sent, hout ▸ hbs, hparse,
    hgoal, hhears₂⟩
  rw [hstart, Coro.bind_returned _ hreceive, Coro.run_pure]

theorem Converses.paged (hready : c.queryReady = true)
    (h : c.Converses db.serve final goal (.idle d) []) {q : Bytes}
    {stores : List (StoreArg × List StoreArg)} {maxRows : Nat}
    (hq : Sendable (.paged q stores maxRows)) (hk : ∀ w r, Coro.Preserves (HasWritten w) (k r))
    (hfinal : final = ((run (.paged q stores maxRows) >>= k).run c).2.output) :
    ∃ results c', (run (.paged q stores maxRows)).run c = (.returned results, c') ∧
      Shows results (db.perform d (.paged q stores maxRows)).1 ∧ c'.queryReady = true ∧
      c'.Converses db.serve final goal (.idle (db.perform d (.paged q stores maxRows)).2) [] := by
  obtain ⟨results, last, c', s', hrun, hsuspended, hrows, hconcludes, hready', hdone, h'⟩ :=
    Converses.executePages (db.pages _ _) hready h hq.1 hq.2 maxRows (db.owes_prepared d q _) hk hfinal
  exact ⟨_, c', hrun, ⟨results, last, rfl, hsuspended, hrows, hconcludes⟩, hready', hdone ▸ h'⟩

theorem Converses.run {cmd : Command} (hready : c.queryReady = true)
    (h : c.Converses db.serve final goal (.idle d) []) (hcmd : Sendable cmd)
    (hk : ∀ w r, Coro.Preserves (HasWritten w) (k r))
    (hfinal : final = ((PgConnection.run cmd >>= k).run c).2.output) :
    ∃ results c', (PgConnection.run cmd).run c = (.returned results, c') ∧
      Shows results (db.perform d cmd).1 ∧ c'.queryReady = true ∧
      c'.Converses db.serve final goal (.idle (db.perform d cmd).2) [] := by
  cases cmd with
  | simple q => exact Converses.simple hready h hcmd hk hfinal
  | paged q stores maxRows => exact Converses.paged hready h hcmd hk hfinal

theorem Converses.runAll (hready : c.queryReady = true) {cmds : List Command}
    (hcmds : ∀ cmd ∈ cmds, Sendable cmd) (h : c.Converses db.serve final goal (.idle d) [])
    (hfinal : final = ((runAll cmds).run c).2.output) :
    ∃ results c', (PgConnection.runAll cmds).run c = (.returned results, c') ∧
      List.Forall₂ Shows results (db.performAll d cmds).1 ∧
      goal = .idle (db.performAll d cmds).2 ∧ c'.queryReady = true ∧ c'.pending = [] := by
  induction cmds generalizing c d with
  | nil =>
    have hrun : (PgConnection.runAll []).run c = (.returned [], c) := rfl
    rw [hrun] at hfinal
    subst hfinal
    obtain ⟨hhears, hgoal⟩ := h.stop
    exact ⟨[], c, hrun, .nil, hgoal.symm, hready, hhears.pending_nil⟩
  | cons cmd cmds ih =>
    obtain ⟨hcmd, hcmds⟩ := List.forall_mem_cons.mp hcmds
    obtain ⟨results, c₁, hrun, hshows, hready₁, h₁⟩ := Converses.run hready h hcmd
      (fun w _ => (preserves_runAll w hcmds).bind fun _ => .pure _) hfinal
    have hrest : final = ((PgConnection.runAll cmds).run c₁).2.output := by
      rw [hfinal, PgConnection.runAll, Coro.bind_returned _ hrun, Coro.run_bind_pure_snd]
    obtain ⟨rest, c₂, hrun₂, hshows₂, hgoal, hlast⟩ := ih hready₁ hcmds h₁ hrest
    refine ⟨results :: rest, c₂, ?_, .cons hshows hshows₂, hgoal, hlast⟩
    rw [PgConnection.runAll, Coro.bind_returned _ hrun, Coro.bind_returned _ hrun₂, Coro.run_pure]

/-- A client that runs commands in a row finds what the database computes when it performs them one
after another, and the messages that it has written leave the server with the data that this leaves.
Then the connection is ready, with nothing unread. -/
theorem session (hready : c.queryReady = true) {cmds : List Command}
    (hcmds : ∀ cmd ∈ cmds, Sendable cmd)
    (h : c.Converses db.serve ((runAll cmds).run c).2.output goal (.idle d) []) :
    ∃ results c', (runAll cmds).run c = (.returned results, c') ∧
      List.Forall₂ Shows results (db.performAll d cmds).1 ∧
      goal = .idle (db.performAll d cmds).2 ∧ c'.queryReady = true ∧ c'.pending = [] :=
  h.runAll hready hcmds rfl

/-- One count up, and then its row in pages of one. -/
theorem session_counter :
    let cmds : List Command := [.simple (ascii "u"), .paged (ascii "s") [] 1]
    ∃ c results c', (runAll cmds).run c = (.returned results, c') ∧
      List.Forall₂ Shows results (counter.performAll 0 cmds).1 ∧
      Serving.idle 1 = .idle (counter.performAll 0 cmds).2 ∧ c'.queryReady = true ∧
      c'.pending = [] := by
  intro cmds
  let rs : List Reply := [
    ⟨.commandComplete (ascii "UPDATE 1"), by decide, (by decide : 0 ∉ ascii "UPDATE 1")⟩,
    ⟨.readyForQuery 'I'.toUInt8, by decide, trivial⟩,
    ⟨.parseComplete, by decide, trivial⟩,
    ⟨.bindComplete, by decide, trivial⟩,
    ⟨.dataRow [none], by decide, by decide⟩,
    ⟨.portalSuspended, by decide, trivial⟩,
    ⟨.commandComplete (ascii "SELECT 1"), by decide, (by decide : 0 ∉ ascii "SELECT 1")⟩,
    ⟨.closeComplete, by decide, trivial⟩,
    ⟨.readyForQuery 'I'.toUInt8, by decide, trivial⟩]
  let c : PgConnection := ⟨Socket.incoming (rs.map Reply.frame) (by decide) [], true⟩
  let sent : List FrontendMessage :=
    [.query (ascii "u")] ++ prepared (ascii "s") [] ++ executing 1 ++ executing 1 ++ closing
  have hwritten : ((runAll cmds).run c).2.output.written = [] ++ sent.flatMap wire := by decide +kernel
  have hparse : Frontend.parseMessages 9 [] (sent.flatMap wire) = some sent := by decide +kernel
  have hreplies : Responder.replies counter.serve (.idle 0) sent = rs.map Reply.message := by
    decide +kernel
  have hsimple : Sendable (.simple (ascii "u")) := ⟨by decide, by decide⟩
  have hpaged : Sendable (.paged (ascii "s") [] 1) := by
    refine ⟨⟨by decide, ?_, by decide⟩, by decide⟩
    intro a ha
    cases ha
  have hconverses : c.Converses counter.serve ((runAll cmds).run c).2.output (.idle 1) (.idle 0) [] :=
    ⟨fun _ => ⟨0, rfl⟩, _, 9, sent, hwritten, hparse, rfl, rs, hreplies ▸ List.Carry.of_map rs,
      incoming_run _ _ [] true⟩
  exact ⟨c, session rfl (List.forall_mem_cons.mpr ⟨hsimple, List.forall_mem_singleton.mpr hpaged⟩)
    hconverses⟩

end PgConnection

end CppEvent
