import CppEvent.Http.Exchange
import CppEvent.Http.Message
import CppEvent.Http.Routing

/-!
# Requests in a row

What `on_connection` does with the messages of a client, one after the other, while sends succeed.
Each matched message that its endpoint reads to the end leaves the connection at the next message
(`respond_run`). The server makes exactly the calls that the messages ask for, up to the first whose
response cannot be ended (`onConnection_run`), and so all of them exactly if there is none before
the last (`onConnection_answers_iff`).
-/

namespace CppEvent

open Coroutine

namespace HttpServer

variable {E : Type}

/-! ## One response -/

/-- What an endpoint starts from. -/
def script (server : HttpServer E) (l : Left) : Script :=
  { pieces := l.pieces, res := { traversal := server.traversal }, received := [] }

theorem onExchange_run {α : Type} {server : HttpServer E} {body : HttpBody}
    {calls : Exchange → List (Call E)} {t : Coro Exchange Exn α} {c : Connection E}
    {o : Outcome Exn α} {x : Exchange} (h : t.run (opened server body c) = (o, x)) :
    (onExchange server body calls t).run c =
      (o, { sock := x.sock, calls := c.calls ++ calls x }) := Coro.run_focus h

theorem of_opened (server : HttpServer E) {l : Left} {c : Connection E} {rest : Bytes}
    (hp : c.sock.pending = l.wire ++ rest) (hsends : c.sock.output.SendsSucceed) :
    (server.script l).Of rest (opened server l.state c) :=
  ⟨⟨l, ⟨rfl, hp⟩, rfl⟩, rfl, rfl, hsends⟩

/-- The response of an endpoint that does not throw: it is ended, and if no data is left the
connection is behind the body; or it cannot be ended. -/
theorem respond_run (server : HttpServer E) (e : E) (req : HttpRequest) {l : Left}
    {c : Connection E} {rest : Bytes} (hp : c.sock.pending = l.wire ++ rest)
    (hsends : c.sock.output.SendsSucceed) {t : Script}
    (ht : (server.serve e req).evaluate Script.answer (server.script l) = (.ok (), t)) :
    ∃ o s, (respond server (some e) req l.state).run c =
        (o, { sock := s, calls := c.calls ++ [⟨e, req, t.received⟩] }) ∧
      if t.res.CanEnd then o = .returned (decide (t.pieces ≠ [])) ∧ s.output.SendsSucceed ∧
          (t.pieces = [] → s.pending = rest)
        else ∃ exn, o = .threw exn := by
  obtain ⟨o, x, hrun, hreceived, hends⟩ :=
    Exchange.complete_run (server.serve e req) (of_opened server hp hsends) ht
  refine ⟨o, x.sock, ?_, hends⟩
  rw [← hreceived]
  exact onExchange_run hrun

/-! ## One message -/

/-- The endpoint that a message is matched with, and the request that it is given. -/
def matched (server : HttpServer E) (m : Message) : Option (E × HttpRequest) :=
  match server.router.matchPath m.method m.path [] with
  | .ok (some e, params) => some (e, m.parsed.setPathParams params)
  | _ => none

/-- What an endpoint makes of a message: how it ends, and the script that it leaves. -/
def outcome (server : HttpServer E) (m : Message) (e : E) (req : HttpRequest) :
    Except Exn Unit × Script :=
  (server.serve e req).evaluate Script.answer (server.script m.body.left)

def IntoStrings : ExchangeOp → Prop
  | .readInto _ _ => False
  | .skip _ => False
  | _ => True

/-- The message has an endpoint, which reads its body to the end with reads into strings and does
not throw. -/
def ReadsToEnd (server : HttpServer E) (m : Message) : Prop :=
  ∃ e req, server.matched m = some (e, req) ∧
    (server.serve e req).CallsOnly IntoStrings Script.answer (server.script m.body.left) ∧
    (server.outcome m e req).1 = .ok () ∧ (server.outcome m e req).2.pieces = []

/-- The response that the endpoint of the message leaves can be ended. -/
def LeavesEndable (server : HttpServer E) (m : Message) : Prop :=
  ∀ e req, server.matched m = some (e, req) → (server.outcome m e req).2.res.CanEnd

/-- The call that a message asks for. -/
structure Answers (server : HttpServer E) (m : Message) (call : Call E) : Prop where
  endpoint : server.matched m = some (call.endpoint, call.request)
  method : call.request.method = m.method
  path : call.request.path = m.path
  query : call.request.query = m.query
  header : ∀ name, call.request.getHeader name = Header.lookup m.headers name
  received : call.received = m.data

theorem received_of_callsOnly {α : Type} (p : Program ExchangeOp (fun op => Except op.Thrown op.Result) α)
    {t : Script} (h : p.CallsOnly IntoStrings Script.answer t) :
    (p.evaluate Script.answer t).2.received ++ (p.evaluate Script.answer t).2.pieces.flatten =
      t.received ++ t.pieces.flatten := by
  induction p generalizing t with
  | done a => rfl
  | call op next ih =>
    obtain ⟨hop, hnext⟩ := h
    refine (ih _ hnext).trans ?_
    cases op with
    | readInto dest size => exact hop.elim
    | skip size => exact hop.elim
    | read size =>
      simp only [Script.answer, Script.advance, Script.next, List.flatten_dropFlat,
        List.append_assoc, List.take_append_drop]
    | setContentLength len =>
      simp only [Script.answer]
      cases t.res.setContentLength len <;> rfl
    | _ => rfl

theorem request_of_matched {server : HttpServer E} {m : Message} {e : E} {req : HttpRequest}
    (h : server.matched m = some (e, req)) :
    ∃ params, server.router.matchPath m.method m.path [] = .ok (some e, params) ∧
      req = m.parsed.setPathParams params := by
  rw [matched] at h
  split at h
  · rename_i e' params hmatch
    obtain ⟨rfl, rfl⟩ := Prod.mk.inj (Option.some.inj h)
    exact ⟨params, hmatch, rfl⟩
  · exact absurd h (Option.some_ne_none _).symm

/-- What an endpoint is called with, if it reads to the end, is what the message asks for. -/
theorem answers_of_readsToEnd {server : HttpServer E} {m : Message} (h : server.ReadsToEnd m)
    {e : E} {req : HttpRequest} (hmatched : server.matched m = some (e, req)) :
    server.Answers m ⟨e, req, (server.outcome m e req).2.received⟩ := by
  obtain ⟨e', req', hmatched', hcalls, _, hpieces⟩ := h
  obtain ⟨rfl, rfl⟩ := Prod.mk.inj (Option.some.inj (hmatched'.symm.trans hmatched))
  obtain ⟨params, _, rfl⟩ := request_of_matched hmatched
  refine ⟨hmatched, rfl, rfl, rfl, fun name => Header.find_store m.headers name, ?_⟩
  have hreceived := received_of_callsOnly _ hcalls
  rw [← outcome, hpieces, List.flatten_nil, List.append_nil] at hreceived
  exact hreceived

instance (m : Message) : Decidable m.KeepAlive := inferInstanceAs (Decidable (_ = true))

/-- A round over a message that is read to the end: one call, and if the response can be ended the
connection is behind the message. -/
theorem connectionRound_reads {server : HttpServer E} {m : Message} (h : server.ReadsToEnd m)
    {c : Connection E} {rest : Bytes} (hp : c.sock.pending = m.wire ++ rest)
    (hsends : c.sock.output.SendsSucceed) {e : E} {req : HttpRequest}
    (hmatched : server.matched m = some (e, req)) :
    ∃ o s, (connectionRound server ()).run c = (o, { sock := s, calls := c.calls ++
        [⟨e, req, (server.outcome m e req).2.received⟩] }) ∧
      if (server.outcome m e req).2.res.CanEnd then
        o = .returned (if m.KeepAlive then .inl () else .inr ()) ∧ s.output.SendsSucceed ∧
          s.pending = rest
      else ∃ exn, o = .threw exn := by
  obtain ⟨e', req', hmatched', _, hok, hpieces⟩ := h
  obtain ⟨rfl, rfl⟩ := Prod.mk.inj (Option.some.inj (hmatched'.symm.trans hmatched))
  obtain ⟨params, hmatch, hreq⟩ := request_of_matched hmatched
  obtain ⟨s₁, hc₁, hround⟩ := connectionRound_run server m hp
  have hp₁ : s₁.pending = m.body.left.wire ++ rest := hc₁.rest_eq (by
    rw [hp, Message.wire, List.append_assoc])
  obtain ⟨o, s, hrespond, hends⟩ := respond_run server e' req' (c := { c with sock := s₁ })
    hp₁ (by rw [hc₁.2.1]; exact hsends) (t := (server.outcome m e' req').2) (Prod.ext hok rfl)
  have hhandle : (handleRequest server m.parsed m.body.left.state).run { c with sock := s₁ } =
      (respond server (some e') req' m.body.left.state >>= fun more =>
        pure (if (!more && (findCaseInsensitive req'.connectionType (ascii "keep-alive")).isSome) =
          true then .inl () else .inr ())).run { c with sock := s₁ } := by
    rw [handleRequest, show m.parsed.method = m.method from rfl,
      show m.parsed.path = m.path from rfl, hmatch, hreq]
  rw [hround, hhandle]
  by_cases hend : (server.outcome m e' req').2.res.CanEnd
  · rw [if_pos hend] at hends
    obtain ⟨rfl, hsends', hrest⟩ := hends
    refine ⟨_, s, Coro.bind_returned _ hrespond, ?_⟩
    rw [if_pos hend]
    refine ⟨?_, hsends', hrest hpieces⟩
    have hkeep : (findCaseInsensitive req'.connectionType (ascii "keep-alive")).isSome = true ↔
        m.KeepAlive := by
      rw [hreq, Message.KeepAlive, ← Header.find_store]
      rfl
    simp [hpieces, hkeep]
  · rw [if_neg hend] at hends
    obtain ⟨exn, rfl⟩ := hends
    refine ⟨.threw exn, s, Coro.bind_threw _ hrespond, ?_⟩
    rw [if_neg hend]
    exact ⟨exn, rfl⟩

/-! ## A row of messages -/

/-- The calls that a row of messages gets, up to the first whose response cannot be ended. -/
def calls (server : HttpServer E) : List Message → List (Call E)
  | [] => []
  | m :: ms =>
      match server.matched m with
      | none => []
      | some (e, req) =>
          ⟨e, req, (server.outcome m e req).2.received⟩ ::
            if (server.outcome m e req).2.res.CanEnd then calls server ms else []

theorem iterate_calls (server : HttpServer E) {ms : List Message}
    (hreads : ∀ m ∈ ms, server.ReadsToEnd m) (hkeep : ∀ m ∈ ms.dropLast, m.KeepAlive) {n : Nat}
    {c : Connection E} (hn : c.sock.pending.length < n)
    (hp : c.sock.pending = ms.flatMap Message.wire) (hsends : c.sock.output.SendsSucceed) :
    ((Coro.iterate (connectionRound server) n ()).run c).2.calls = c.calls ++ server.calls ms := by
  induction ms generalizing n c with
  | nil =>
    obtain ⟨n, rfl⟩ : ∃ k, n = k + 1 := ⟨n - 1, by omega⟩
    obtain ⟨hcalls, hlast⟩ := connectionRound_eof server hp
    rw [Coro.iterate_succ, calls, List.append_nil]
    rcases ho : ((connectionRound server ()).run c).1 with ⟨⟨⟩ | ⟨⟩⟩ | _ | _ | _
    · exact absurd ho hlast
    all_goals exact hcalls
  | cons m ms ih =>
    obtain ⟨n, rfl⟩ : ∃ k, n = k + 1 := ⟨n - 1, by omega⟩
    obtain ⟨e, req, hmatched, _⟩ := hreads m List.mem_cons_self
    rw [List.flatMap_cons] at hp
    obtain ⟨o, s, hround, hends⟩ :=
      connectionRound_reads (hreads m List.mem_cons_self) hp hsends hmatched
    rw [Coro.iterate_succ, hround]
    simp only [calls, hmatched]
    by_cases hend : (server.outcome m e req).2.res.CanEnd
    · rw [if_pos hend] at hends ⊢
      obtain ⟨rfl, hsends', hrest⟩ := hends
      by_cases hk : m.KeepAlive
      · -- the connection goes on with the other messages
        have hlen : s.pending.length < n := by
          have hwire : 0 < m.wire.length := by
            simp only [Message.wire, Message.head, List.length_append, List.length_cons]
            omega
          rw [hp, List.length_append, ← hrest] at hn
          omega
        simp only [if_pos hk, Coro.leave]
        rw [ih (fun m' hm' => hreads m' (List.mem_cons_of_mem m hm')) (fun m' hm' => ?_) hlen hrest
          hsends', List.append_assoc]
        · rfl
        · cases ms with
          | nil => simp at hm'
          | cons m₁ ms =>
            rw [List.dropLast_cons_cons] at hkeep
            exact hkeep m' (List.mem_cons_of_mem m hm')
      · -- the connection ends with the last message
        have hlast : ms = [] := by
          cases ms with
          | nil => rfl
          | cons m₁ ms =>
            rw [List.dropLast_cons_cons] at hkeep
            exact absurd (hkeep m List.mem_cons_self) hk
        simp only [if_neg hk, Coro.leave, hlast, calls]
    · rw [if_neg hend] at hends ⊢
      obtain ⟨exn, rfl⟩ := hends
      rfl

/-- The calls that `on_connection` makes for the messages on its socket. -/
theorem onConnection_run (server : HttpServer E) {ms : List Message}
    (hreads : ∀ m ∈ ms, server.ReadsToEnd m) (hkeep : ∀ m ∈ ms.dropLast, m.KeepAlive)
    {c : Connection E} (hp : c.sock.pending = ms.flatMap Message.wire)
    (hsends : c.sock.output.SendsSucceed) :
    ((onConnection server).run c).2.calls = c.calls ++ server.calls ms := by
  have hloop := iterate_calls server hreads hkeep (Nat.lt_succ_of_le c.sock.input.length_pending_le) hp
    hsends
  rw [← hloop, onConnection, Coro.run_bind, Coro.run_loop]
  rcases (Coro.iterate (connectionRound server) (c.sock.awaited.length + 1) ()).run c with
    ⟨_ | _ | _ | _, c'⟩ <;> rfl

/-- On a fresh connection every message gets the call that it asks for, and there are no others,
exactly if no message but the last leaves a response that cannot be ended. -/
theorem onConnection_answers_iff (server : HttpServer E) (ms : List Message) (c : Connection E)
    (hp : c.sock.pending = ms.flatMap Message.wire) (hsends : c.sock.output.SendsSucceed)
    (hfresh : c.calls = []) (hreads : ∀ m ∈ ms, server.ReadsToEnd m)
    (hkeep : ∀ m ∈ ms.dropLast, m.KeepAlive) :
    List.Forall₂ server.Answers ms ((onConnection server).run c).2.calls ↔
      ∀ m ∈ ms.dropLast, server.LeavesEndable m := by
  rw [onConnection_run server hreads hkeep hp hsends, hfresh, List.nil_append]
  clear hp hkeep
  induction ms with
  | nil => simp [calls]
  | cons m ms ih =>
    obtain ⟨e, req, hmatched, _⟩ := id (hreads m List.mem_cons_self)
    have hanswers := answers_of_readsToEnd (hreads m List.mem_cons_self) hmatched
    have ih := ih fun m' hm' => hreads m' (List.mem_cons_of_mem m hm')
    have hleaves : server.LeavesEndable m ↔ (server.outcome m e req).2.res.CanEnd := by
      refine ⟨fun h => h e req hmatched, fun h e' req' hmatched' => ?_⟩
      obtain ⟨rfl, rfl⟩ := Prod.mk.inj (Option.some.inj (hmatched'.symm.trans hmatched))
      exact h
    simp only [calls, hmatched, List.forall₂_cons, hanswers, true_and]
    by_cases hend : (server.outcome m e req).2.res.CanEnd
    · rw [if_pos hend, ih]
      cases ms with
      | nil => simp
      | cons m₁ ms => simp [hleaves, hend]
    · rw [if_neg hend, List.forall₂_nil_right_iff]
      cases ms with
      | nil => simp
      | cons m₁ ms => simp [hleaves, hend]

/-! ### Two messages -/

/-- A server whose one endpoint reads the body and answers with a status. -/
def answering (status : HttpStatus) : HttpServer HttpStatus :=
  { router := { HttpRouter.new with getEndpoint := some status, postEndpoint := some status }
    serve := fun status _ => .call (.read 1000) fun _ => .call (.setStatus status) fun _ =>
      .done (.ok ())
    traversal := id }

def getRoot : Message :=
  { method := .GET, target := ascii "/", version := .HTTP_1_1, headers := [], body := .none,
    target_ne_nil := by decide, space_not_mem := by decide, cr_not_mem := by decide,
    lf_not_mem := by decide, framed := ⟨rfl, rfl⟩ }

def chunkedHeader : Header :=
  { name := ascii "Transfer-Encoding", value := ascii "chunked", name_ne_nil := by decide,
    value_ne_nil := by decide, name_trimmed := by constructor <;> decide,
    value_trimmed := by constructor <;> decide, colon_not_mem := by decide,
    cr_not_mem := by decide, lf_not_mem := by decide }

def postAbcd : Message :=
  { method := .POST, target := ascii "/?q=1", version := .HTTP_1_0, headers := [chunkedHeader],
    body := .chunked .abcd, target_ne_nil := by decide, space_not_mem := by decide,
    cr_not_mem := by decide, lf_not_mem := by decide,
    framed := ⟨rfl, chunkedHeader, rfl, by decide⟩ }

/-- A connection on which the two messages come in one packet. -/
def twoMessages : Connection HttpStatus :=
  { sock := Socket.new
      [.data { bytes := [getRoot, postAbcd].flatMap Message.wire, nonempty := by decide,
               length_le := by decide }]
      fun _ => .accepted 0
    calls := [] }

theorem pending_twoMessages :
    twoMessages.sock.pending = [getRoot, postAbcd].flatMap Message.wire := by
  rw [twoMessages, Socket.pending_new]
  exact List.append_nil _

theorem matched_answering (status : HttpStatus) {m : Message} (hm : m.path = ascii "/")
    (hmethod : HttpRouter.Supported m.method) :
    (answering status).matched m = some (status, m.parsed.setPathParams []) := by
  rw [matched, hm, HttpRouter.matchPath]
  rcases hmethod with h | h <;> rw [h] <;> rfl

theorem readsToEnd_answering (status : HttpStatus) :
    ∀ m ∈ [getRoot, postAbcd], (answering status).ReadsToEnd m := by
  intro m hm
  simp only [List.mem_cons, List.not_mem_nil, or_false] at hm
  rcases hm with rfl | rfl
  · exact ⟨status, _, matched_answering status rfl (.inl rfl), ⟨trivial, trivial, trivial⟩, rfl,
      rfl⟩
  · exact ⟨status, _, matched_answering status rfl (.inr rfl), ⟨trivial, trivial, trivial⟩, rfl,
      rfl⟩

theorem onConnection_answers_two :
    List.Forall₂ (answering .OK).Answers [getRoot, postAbcd]
        ((onConnection (answering .OK)).run twoMessages).2.calls ↔
      ∀ m ∈ [getRoot], (answering .OK).LeavesEndable m :=
  onConnection_answers_iff (answering .OK) [getRoot, postAbcd] twoMessages pending_twoMessages
    (fun _ => ⟨0, rfl⟩) rfl (readsToEnd_answering .OK) (fun m hm => by
      rw [show m = getRoot by simpa using hm]
      decide)

/-- After an endpoint that sets the one status without a reason phrase the second message gets no
call. -/
theorem onConnection_drops_second :
    (∀ m ∈ [getRoot, postAbcd], (answering .INSUFFICIENT_STORAGE).ReadsToEnd m) ∧
      getRoot.KeepAlive ∧ twoMessages.sock.pending = [getRoot, postAbcd].flatMap Message.wire ∧
      ¬ List.Forall₂ (answering .INSUFFICIENT_STORAGE).Answers [getRoot, postAbcd]
        ((onConnection (answering .INSUFFICIENT_STORAGE)).run twoMessages).2.calls := by
  refine ⟨readsToEnd_answering _, by decide, pending_twoMessages, fun hall => ?_⟩
  rw [onConnection_run _ (readsToEnd_answering _) (fun m hm => by
    rw [show m = getRoot by simpa using hm]
    decide) pending_twoMessages fun _ => ⟨0, rfl⟩] at hall
  have hone : ((answering .INSUFFICIENT_STORAGE).calls [getRoot, postAbcd]).length = 1 := by
    rw [calls, matched_answering _ rfl (.inl rfl)]
    simp only
    rw [if_neg (by decide)]
    rfl
  have hlen := hall.length_eq
  rw [List.length_append, hone] at hlen
  exact absurd hlen (by decide)

end HttpServer

end CppEvent
