import CppEvent.Postgres.Sending

/-!
# The results of a query

What `query` makes of the messages that answer it: one result for every message that ends one, with
the rows and columns that came since the one before (`query_groups`). The invariant of the receive
loop is that all results but the last are finished, and that the last one is pending (`Collects`).
-/

namespace CppEvent

open Coroutine

namespace BackendMessage

/-- The messages that answer a query, but for the last one. -/
def answersQuery : BackendMessage → Bool
  | rowDescription _ | dataRow _ | commandComplete _ | emptyQueryResponse | errorResponse _
  | noticeResponse _ => true
  | _ => false

def endsResult : BackendMessage → Bool
  | commandComplete _ | emptyQueryResponse | errorResponse _ => true
  | _ => false

def columns? : BackendMessage → Option (List PgColumn)
  | rowDescription fields => some (fields.map FieldDescription.column)
  | _ => none

def row? : BackendMessage → Option (List (Option Bytes))
  | dataRow values => some values
  | _ => none

/-- The messages of each result, and the one that ends it; `cur` has come of the first. -/
def groups (cur : List BackendMessage) :
    List BackendMessage → List (List BackendMessage × BackendMessage)
  | [] => []
  | m :: ms => if m.endsResult then (cur, m) :: groups [] ms else groups (cur ++ [m]) ms

theorem groups_append {cur ns : List BackendMessage} (hns : ∀ n ∈ ns, n.endsResult = false)
    (ms : List BackendMessage) : groups cur (ns ++ ms) = groups (cur ++ ns) ms := by
  induction ns generalizing cur with
  | nil => rw [List.nil_append, List.append_nil]
  | cons n ns ih =>
    obtain ⟨hn, hns⟩ := List.forall_mem_cons.mp hns
    rw [List.cons_append, groups, hn, if_neg Bool.false_ne_true, ih hns, List.append_assoc,
      List.singleton_append]

theorem of_type_notice {m : BackendMessage} (h : m.type = .noticeResponse) :
    m.endsResult = false ∧ m.columns? = none ∧ m.row? = none := by
  cases m with
  | noticeResponse fields => exact ⟨rfl, rfl, rfl⟩
  | _ => simp [type] at h

end BackendMessage

namespace PgResult

/-- The result has the columns and rows of these messages. A second description of columns would free
the array that the names of the first ones view, so nothing is said of the columns of two. -/
structure Gathers (r : PgResult) (ms : List BackendMessage) : Prop where
  columns : (ms.filterMap BackendMessage.columns?).length ≤ 1 →
    r.columns = (ms.filterMap BackendMessage.columns?).flatten
  rows : r.rows.map (List.map PgValue.content) = ms.filterMap BackendMessage.row?

/-- The result is that of these messages, the last of which ends it. -/
structure Renders (r : PgResult) (group : List BackendMessage × BackendMessage) : Prop where
  gathers : r.Gathers group.1
  ending : match group.2 with
    | .commandComplete tag => r.type = .success ∧ r.cmdTag = tag
    | _ => r.type = .error

theorem gathers_empty : PgResult.empty.Gathers [] := ⟨fun _ => rfl, rfl⟩

theorem Renders.type_ne_pending {r : PgResult} {group : List BackendMessage × BackendMessage}
    (h : r.Renders group) : r.type ≠ .pending := by
  have hending := h.ending
  split at hending
  · rw [hending.1]
    decide
  · rw [hending]
    decide

theorem exists_renders {rs : List PgResult} {groups : List (List BackendMessage × BackendMessage)}
    (h : List.Forall₂ Renders rs groups) {r : PgResult} (hr : r ∈ rs) : ∃ group, r.Renders group := by
  induction h with
  | nil => cases hr
  | cons head _ ih =>
    rcases List.mem_cons.mp hr with rfl | hr
    · exact ⟨_, head⟩
    · exact ih hr

namespace Gathers

variable {r r' : PgResult} {ms : List BackendMessage}

theorem congr (h : r.Gathers ms) (hcolumns : r'.columns = r.columns) (hrows : r'.rows = r.rows) :
    r'.Gathers ms where
  columns hone := hcolumns.trans (h.columns hone)
  rows := by rw [hrows, h.rows]

theorem append {ns : List BackendMessage} (h : r.Gathers ms)
    (hns : ∀ n ∈ ns, n.columns? = none ∧ n.row? = none) : r.Gathers (ms ++ ns) where
  columns := by
    rw [List.filterMap_append, List.filterMap_eq_nil_iff.mpr fun n hn => (hns n hn).1,
      List.append_nil]
    exact h.columns
  rows := by
    rw [List.filterMap_append, List.filterMap_eq_nil_iff.mpr fun n hn => (hns n hn).2,
      List.append_nil, h.rows]

theorem addColumns (h : r.Gathers ms) (fields : List FieldDescription) :
    ((fields.map FieldDescription.column).foldl addColumn r).Gathers
      (ms ++ [.rowDescription fields]) := by
  rw [foldl_addColumn]
  constructor
  · intro hone
    have hnone : (ms.filterMap BackendMessage.columns?).length = 0 := by
      simpa [BackendMessage.columns?] using hone
    have hcolumns := h.columns (by omega)
    simp [hcolumns, BackendMessage.columns?]
  · simp [h.rows, BackendMessage.row?]

theorem addRow (h : r.Gathers ms) {row : List PgValue} {values : List (Option Bytes)}
    (hrow : row.map PgValue.content = values) : (r.addRow row).Gathers (ms ++ [.dataRow values]) := by
  constructor
  · have hnone : [BackendMessage.dataRow values].filterMap BackendMessage.columns? = [] := rfl
    rw [List.filterMap_append, hnone, List.append_nil]
    exact h.columns
  · simp [PgResult.addRow, h.rows, BackendMessage.row?, hrow]

end Gathers

end PgResult

/-- The finished results are those of `done`, and the pending one has what came since. -/
structure PgResults.Collects (r : PgResults)
    (done : List (List BackendMessage × BackendMessage)) (cur : List BackendMessage) : Prop where
  done : List.Forall₂ PgResult.Renders r.done done
  back : r.back.Gathers cur
  pending : r.back.type = .pending

namespace PgResults.Collects

variable {r : PgResults} {done : List (List BackendMessage × BackendMessage)}
  {cur : List BackendMessage}

theorem push (h : r.Collects done cur) {m : BackendMessage} {back : PgResult}
    (hback : back.Renders (cur, m)) : (r.push back).Collects (done ++ [(cur, m)]) [] where
  done := List.rel_append h.done (.cons hback .nil)
  back := PgResult.gathers_empty
  pending := rfl

theorem complete (h : r.Collects done cur) (tag : Bytes) :
    (r.push (r.back.setCommandTag tag)).Collects (done ++ [(cur, .commandComplete tag)]) [] := by
  have hback : (r.back.setCommandTag tag).Renders (cur, .commandComplete tag) :=
    ⟨h.back.congr rfl rfl, rfl, rfl⟩
  exact h.push hback

theorem fail (h : r.Collects done cur) {m : BackendMessage}
    (hm : m.type = .emptyQueryResponse ∨ m.type = .errorResponse) :
    (r.push r.back.setError).Collects (done ++ [(cur, m)]) [] := by
  have hback : r.back.setError.Renders (cur, m) := by
    refine ⟨h.back.congr rfl rfl, ?_⟩
    cases m with
    | commandComplete tag => simp [BackendMessage.type] at hm
    | _ => rfl
  exact h.push hback

theorem add (h : r.Collects done cur) {ms : List BackendMessage} {back : PgResult}
    (hback : back.Gathers (cur ++ ms)) (htype : back.type = r.back.type) :
    ({ r with back := back } : PgResults).Collects done (cur ++ ms) where
  done := h.done
  back := hback
  pending := htype.trans h.pending

end PgResults.Collects

namespace PgConnection

variable {results : PgResults} {type : ResponseType} {size : Int}

theorem querySwitch_row (h : type = .rowDescription ∨ type = .dataRow) :
    querySwitch results ⟨type, size⟩ = (do
      let back ← populateDiscarded ⟨type, size⟩ results.back
      pure { results with back := back }) := by
  rcases h with rfl | rfl <;> rfl

theorem querySwitch_skip (h : type = .emptyQueryResponse ∨ type = .errorResponse) :
    querySwitch results ⟨type, size⟩ = (do
      let _ ← skip size
      pure (results.push results.back.setError)) := by
  rcases h with rfl | rfl <;> rfl

theorem querySwitch_commandComplete (h : type = .commandComplete) :
    querySwitch results ⟨type, size⟩ = (do
      let tag ← readTag size
      pure (results.push (results.back.setCommandTag tag))) := by
  subst h
  rfl

theorem querySwitch_readyForQuery (h : type = .readyForQuery) :
    querySwitch results ⟨type, size⟩ = (do
      let _ ← skip size
      setQueryReady true
      pure results) := by
  subst h
  rfl

/-- The `switch` finishes the pending result or adds to it. -/
theorem querySwitch_run {c : PgConnection} {r : Reply} {fs : List Frame} {rest : Bytes}
    (h : c.Delivers r.frame fs rest) (hr : r.message.answersQuery)
    (hnotice : r.message.type ≠ .noticeResponse)
    {done : List (List BackendMessage × BackendMessage)} {cur : List BackendMessage}
    (hresults : results.Collects done cur) :
    ∃ results' c', (querySwitch results ⟨r.frame.type, r.frame.size⟩).run c =
        (.returned results', c') ∧ c.Consumes r.frame.payload c' ∧
      (r.message.endsResult = true ∧ results'.Collects (done ++ [(cur, r.message)]) [] ∨
        r.message.endsResult = false ∧ results'.Collects done (cur ++ [r.message])) := by
  have htype := r.type_frame
  cases hm : r.message with
  | rowDescription fields =>
    rw [hm] at htype
    obtain ⟨c', hrun, hc⟩ := h.rowDescription hm results.back
    refine ⟨_, c', ?_, hc, .inr ⟨rfl, hresults.add (hresults.back.addColumns fields)
      (by rw [PgResult.foldl_addColumn])⟩⟩
    rw [querySwitch_row (.inl htype), Coro.bind_returned _ hrun, Coro.run_pure]
  | dataRow values =>
    rw [hm] at htype
    obtain ⟨row, c', hrun, hcontent, hc⟩ := h.dataRow hm results.back
    refine ⟨_, c', ?_, hc, .inr ⟨rfl, hresults.add (hresults.back.addRow hcontent) rfl⟩⟩
    rw [querySwitch_row (.inr htype), Coro.bind_returned _ hrun, Coro.run_pure]
  | commandComplete tag =>
    rw [hm] at htype
    obtain ⟨c', hrun, hc⟩ := h.readTag hm
    refine ⟨_, c', ?_, hc, .inl ⟨rfl, hresults.complete tag⟩⟩
    rw [querySwitch_commandComplete htype, Coro.bind_returned _ hrun, Coro.run_pure]
  | emptyQueryResponse =>
    rw [hm] at htype
    obtain ⟨c', hrun, hc⟩ := h.skip
    refine ⟨_, c', ?_, hc, .inl ⟨rfl, hresults.fail (.inl rfl)⟩⟩
    rw [querySwitch_skip (.inl htype), Coro.bind_returned _ hrun, Coro.run_pure]
  | errorResponse fields =>
    rw [hm] at htype
    obtain ⟨c', hrun, hc⟩ := h.skip
    refine ⟨_, c', ?_, hc, .inl ⟨rfl, hresults.fail (.inr rfl)⟩⟩
    rw [querySwitch_skip (.inr htype), Coro.bind_returned _ hrun, Coro.run_pure]
  | noticeResponse fields =>
    rw [hm] at hnotice
    exact absurd rfl hnotice
  | _ => simp [hm, BackendMessage.answersQuery] at hr

/-- Before a round of the receive loop: the results so far, and the messages still to come. -/
def Receiving (all : List (List BackendMessage × BackendMessage)) (z : Reply) (rest : Bytes)
    (results : PgResults) (c : PgConnection) : Prop :=
  ∃ done cur rs, results.Collects done cur ∧
    all = done ++ BackendMessage.groups cur (rs.map Reply.message) ∧
    (∀ r ∈ rs, r.message.answersQuery) ∧ c.queryReady = false ∧
    c.Incoming ((rs ++ [z]).map Reply.frame) rest

/-- Behind the message that ends the loop. -/
def Received (all : List (List BackendMessage × BackendMessage)) (rest : Bytes)
    (results : PgResults) (c : PgConnection) : Prop :=
  (∃ cur, results.Collects all cur) ∧ c.queryReady = true ∧ c.pending = rest

theorem collects_of_notices {all : List (List BackendMessage × BackendMessage)}
    {done : List (List BackendMessage × BackendMessage)} {cur : List BackendMessage}
    {ns rs : List Reply} (hns : ∀ n ∈ ns, n.message.type = .noticeResponse)
    (hall : all = done ++ BackendMessage.groups cur ((ns ++ rs).map Reply.message))
    (hresults : results.Collects done cur) :
    results.Collects done (cur ++ ns.map Reply.message) ∧
      all = done ++ BackendMessage.groups (cur ++ ns.map Reply.message) (rs.map Reply.message) := by
  have hall' : ∀ m ∈ ns.map Reply.message, m.endsResult = false ∧ m.columns? = none ∧
      m.row? = none := by
    intro m hm
    obtain ⟨n, hn, rfl⟩ := List.mem_map.mp hm
    exact BackendMessage.of_type_notice (hns n hn)
  refine ⟨hresults.add (hresults.back.append fun m hm => (hall' m hm).2) rfl, ?_⟩
  rw [hall, List.map_append, BackendMessage.groups_append fun m hm => (hall' m hm).1]

theorem queryRound_run {all : List (List BackendMessage × BackendMessage)} {z : Reply} {rest : Bytes}
    {c : PgConnection} (hz : z.message.type = .readyForQuery)
    (h : Receiving all z rest results c) :
    ∃ results' c', (queryRound results).run c = (.returned (.inl results'), c') ∧
      (Receiving all z rest results' c' ∨ Received all rest results' c') ∧
      c'.pending.length < c.pending.length ∧ c'.sock.output = c.sock.output := by
  obtain ⟨done, cur, rs, hresults, hall, hanswers, hready, hin⟩ := h
  have hnot : ¬ c.queryReady = true := by simp [hready]
  rcases Reply.exists_notices rs with hns | ⟨ns, r, rs', rfl, hns, hr⟩
  · rw [List.map_append, List.map_singleton] at hin
    obtain ⟨c₁, hinfo, hc₁, hdelivers⟩ := hin.receive (Reply.frame_isNotice hns)
      (Reply.not_isNotice (by rw [hz]; decide))
    obtain ⟨c₂, hskip, hc₂⟩ := hdelivers.skip
    rw [← List.append_nil rs] at hall
    obtain ⟨hresults, hall⟩ := collects_of_notices hns hall hresults
    rw [List.map_nil, BackendMessage.groups, List.append_nil] at hall
    have hswitch : (querySwitch results ⟨z.frame.type, z.frame.size⟩).run c₁ =
        (.returned results, { c₂ with queryReady := true }) := by
      rw [querySwitch_readyForQuery (z.type_frame.trans hz), Coro.bind_returned _ hskip]
      rfl
    refine ⟨results, { c₂ with queryReady := true }, ?_,
      .inr ⟨⟨_, hall ▸ hresults⟩, rfl, (hdelivers.next c₂ hc₂).pending⟩, ?_,
      hc₂.1.2.1.trans hc₁.1.2.1⟩
    · rw [queryRound, Coro.run_get_bind, if_neg hnot, Coro.bind_returned _ hinfo,
        Coro.bind_returned _ hswitch, Coro.run_pure]
    · have h₁ := hc₁.length_pending
      have h₂ := hc₂.length_pending
      rw [List.length_append, Frame.length_header, headerSize] at h₁
      change c₂.pending.length < _
      omega
  · rw [List.append_assoc, List.cons_append, List.map_append, List.map_cons] at hin
    obtain ⟨c₁, hinfo, hc₁, hdelivers⟩ := hin.receive (Reply.frame_isNotice hns)
      (Reply.not_isNotice hr)
    obtain ⟨hr', hrs'⟩ := List.forall_mem_cons.mp fun q hq => hanswers q (List.mem_append_right ns hq)
    obtain ⟨hresults, hall⟩ := collects_of_notices hns hall hresults
    obtain ⟨results', c₂, hswitch, hc₂, hcollects⟩ := querySwitch_run hdelivers hr' hr hresults
    refine ⟨results', c₂, ?_, .inl ?_, ?_, hc₂.1.2.1.trans hc₁.1.2.1⟩
    · rw [queryRound, Coro.run_get_bind, if_neg hnot, Coro.bind_returned _ hinfo,
        Coro.bind_returned _ hswitch, Coro.run_pure]
    · have hready₂ : c₂.queryReady = false := by rw [hc₂.2, hc₁.2, hready]
      rw [List.map_cons, BackendMessage.groups] at hall
      rcases hcollects with ⟨hends, hcollects⟩ | ⟨hends, hcollects⟩
      · rw [hends, if_pos rfl, ← List.singleton_append, ← List.append_assoc] at hall
        exact ⟨_, _, rs', hcollects, hall, hrs', hready₂, hdelivers.next c₂ hc₂⟩
      · rw [hends, if_neg Bool.false_ne_true] at hall
        exact ⟨_, _, rs', hcollects, hall, hrs', hready₂, hdelivers.next c₂ hc₂⟩
    · have h₁ := hc₁.length_pending
      have h₂ := hc₂.length_pending
      rw [List.length_append, Frame.length_header, headerSize] at h₁
      omega

theorem receiveQuery_run {rs : List Reply} {z : Reply} {rest : Bytes} {c : PgConnection}
    (hz : z.message.type = .readyForQuery) (hrs : ∀ r ∈ rs, r.message.answersQuery)
    (hready : c.queryReady = false) (hin : c.Incoming ((rs ++ [z]).map Reply.frame) rest) :
    ∃ results c', receiveQuery.run c = (.returned results, c') ∧
      Received (BackendMessage.groups [] (rs.map Reply.message)) rest results c' ∧
      c'.sock.output = c.sock.output := by
  generalize hall : BackendMessage.groups [] (rs.map Reply.message) = all
  have hstart : Receiving all z rest { done := [], back := .empty } c :=
    ⟨[], [], rs, ⟨.nil, PgResult.gathers_empty, rfl⟩, hall.symm, hrs, hready, hin⟩
  refine Coro.loop_returns _ queryRound
    (fun results c₁ => (Receiving all z rest results c₁ ∨ Received all rest results c₁) ∧
      c₁.sock.output = c.sock.output)
    (fun results c₁ => Received all rest results c₁ ∧ c₁.sock.output = c.sock.output)
    (fun _ c₁ => c₁.pending.length) _ c ⟨.inl hstart, rfl⟩ (Nat.lt_succ_self _) ?_
  rintro results c₁ ⟨h | h, hout⟩
  · left
    obtain ⟨results', c₂, hrun, hnext, hless, hout₂⟩ := queryRound_run hz h
    exact ⟨results', c₂, hrun, ⟨hnext, hout₂.trans hout⟩, hless⟩
  · right
    refine ⟨results, c₁, ?_, h, hout⟩
    rw [queryRound, Coro.run_get_bind, if_pos h.2.1, Coro.run_pure]

/-- A query returns one result for each group of messages, all of them finished, and leaves the
connection ready behind the message that ends the answer. -/
theorem query_groups {c : PgConnection} (hready : c.queryReady = true)
    (hsends : c.sock.output.SendsSucceed) (q : Bytes) {rs : List Reply} {z : Reply} {status : Byte}
    (hrs : ∀ r ∈ rs, r.message.answersQuery) (hz : z.message = .readyForQuery status) {rest : Bytes}
    (hin : c.Incoming ((rs ++ [z]).map Reply.frame) rest) :
    ∃ results c', (query q).run c = (.returned results, c') ∧
      List.Forall₂ PgResult.Renders results
        (BackendMessage.groups [] (rs.map Reply.message)) ∧
      (∀ r ∈ results, r.type ≠ .pending) ∧ c'.queryReady = true ∧ c'.pending = rest := by
  obtain ⟨c₁, hsend, hw⟩ := sends_query q c hsends
  have hin₁ : ({ c₁ with queryReady := false } : PgConnection).Incoming
      ((rs ++ [z]).map Reply.frame) rest := hin.congr hw.1
  obtain ⟨results, c₂, hreceive, ⟨⟨cur, hcollects⟩, hready₂, hrest⟩, -⟩ :=
    receiveQuery_run (by rw [hz]; rfl) hrs rfl hin₁
  refine ⟨results.done, c₂, ?_, hcollects.done, fun r hr => ?_, hready₂, hrest⟩
  · have hset : (setQueryReady false).run c₁ = (.returned (), { c₁ with queryReady := false }) := rfl
    rw [query, Coro.run_get_bind, if_neg (not_not.mpr hready), Coro.bind_returned _ hsend,
      Coro.bind_returned _ hset, Coro.bind_returned _ hreceive, Coro.run_pure]
  · obtain ⟨group, hrenders⟩ := PgResult.exists_renders hcollects.done hr
    exact hrenders.type_ne_pending

/-- A row with its description, and a null in a command that turns out empty. -/
theorem query_groups_two : ∃ c results c',
    (query (ascii "select 'a'")).run c = (.returned results, c') ∧
    List.Forall₂ PgResult.Renders results [
      ([.rowDescription [⟨ascii "x", List.replicate 16 0, 0⟩], .dataRow [some (ascii "a")]],
        .commandComplete (ascii "SELECT 1")),
      ([.noticeResponse [0], .dataRow [none]], .emptyQueryResponse)] ∧
    (∀ r ∈ results, r.type ≠ .pending) ∧ c'.queryReady = true ∧ c'.pending = [7] := by
  let rs : List Reply := [
    ⟨.rowDescription [⟨ascii "x", List.replicate 16 0, 0⟩], by decide, by decide, by decide⟩,
    ⟨.dataRow [some (ascii "a")], by decide, by decide⟩,
    ⟨.commandComplete (ascii "SELECT 1"), by decide, (by decide : 0 ∉ ascii "SELECT 1")⟩,
    ⟨.noticeResponse [0], by decide, trivial⟩,
    ⟨.dataRow [none], by decide, by decide⟩,
    ⟨.emptyQueryResponse, by decide, trivial⟩]
  let z : Reply := ⟨.readyForQuery 'I'.toUInt8, by decide, trivial⟩
  obtain ⟨s, hsends, hin⟩ := exists_incoming ((rs ++ [z]).map Reply.frame) (by decide) [7]
  obtain ⟨results, c', hrun, hrenders, hpending, hready, hrest⟩ :=
    query_groups (c := { sock := s, queryReady := true }) rfl hsends (ascii "select 'a'")
      (by decide) (rfl : z.message = _) (hin true)
  exact ⟨_, results, c', hrun, hrenders, hpending, hready, hrest⟩

end PgConnection

end CppEvent
