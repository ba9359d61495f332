import CppEvent.Http.Conversation
import CppEvent.Http.Registration

/-!
# Which requests a router answers

`match` goes into the literal child wherever there is one and never comes back. A pattern that fits a
path is found unless a pattern of either method takes the path away from it at one of its parameters
(`matchPath_complete`). Methods that the parser accepts and the router has no variable for make `match`
throw wherever the path leads to a node (`matchPath_routes_iff`).
-/

namespace CppEvent

open AssocMap Coroutine

namespace Routing

variable {E : Type} {R : Set (RouterCall E)} {r r' : RouterCall E} {path : List Bytes}

/-! ## Patterns that fit a path -/

/-- A parameter fits every segment, a literal itself. -/
def FitsSegment (p s : Bytes) : Prop := IsParam p ∨ p = s

/-- The pattern fits the path, segment by segment. -/
def Fits (pattern path : List Bytes) : Prop := List.Forall₂ FitsSegment pattern path

/-- In no place where the pattern of `r` has a parameter does a pattern with the same segments before it
have the path's own segment as a literal. -/
def Unshadowed (R : Set (RouterCall E)) (path : List Bytes) (r : RouterCall E) : Prop :=
  ∀ i s, path[i]? = some s → ParamAt r i →
    ¬ ∃ r' ∈ R, r'.pattern.take i = r.pattern.take i ∧ LiteralAt r' i s

theorem take_succ_eq {i : Nat} (h : r.pattern.take i = r'.pattern.take i)
    (hi : r.pattern[i]? = r'.pattern[i]?) : r.pattern.take (i + 1) = r'.pattern.take (i + 1) := by
  rw [List.take_add_one, List.take_add_one, h, hi]

/-- Patterns that agree up to a place and have parameters of different names there clash. -/
theorem clash_of_take_eq {p q : List Bytes} {i : Nat} {x y : Bytes} (h : p.take i = q.take i)
    (hx : p[i]? = some x) (hy : q[i]? = some y) (hxy : x ≠ y) (hpx : IsParam x) (hpy : IsParam y) :
    HttpRouter.Clash p q := by
  induction i generalizing p q with
  | zero =>
    obtain ⟨p, rfl⟩ := List.head?_eq_some_iff.mp (List.head?_eq_getElem?.trans hx)
    obtain ⟨q, rfl⟩ := List.head?_eq_some_iff.mp (List.head?_eq_getElem?.trans hy)
    rw [HttpRouter.Clash, if_neg hxy]
    exact ⟨hpx, hpy⟩
  | succ i ih =>
    cases p with
    | nil => cases hx
    | cons a p =>
      cases q with
      | nil => cases hy
      | cons b q =>
        obtain ⟨rfl, htail⟩ := List.cons.inj h
        exact (HttpRouter.clash_cons_self _ _ _).mpr (ih htail hx hy)

theorem kept_subset (i : Nat) (h : r ∈ kept R path i) : r ∈ R := by
  induction i with
  | zero => exact h
  | succ i ih => exact ih h.1

theorem take_eq_of_kept (hR : ∀ r ∈ R, ∀ r' ∈ R, ¬ HttpRouter.Clash r.pattern r'.pattern) {i : Nat}
    (hi : i ≤ path.length) (h : r ∈ kept R path i) (h' : r' ∈ kept R path i) :
    r.pattern.take i = r'.pattern.take i := by
  induction i with
  | zero => rfl
  | succ i ih =>
    obtain ⟨s, hs⟩ : ∃ s, path[i]? = some s := ⟨_, List.getElem?_eq_getElem (by omega)⟩
    have htake := ih (by omega) h.1 h'.1
    refine take_succ_eq htake ?_
    rcases h.2 s hs with hl | ⟨hno, name, hname⟩
    · rcases h'.2 s hs with hl' | ⟨hno', -⟩
      · rw [hl.1, hl'.1]
      · exact absurd hl (hno' r h.1)
    · rcases h'.2 s hs with hl' | ⟨-, name', hname'⟩
      · exact absurd hl' (hno r' h'.1)
      · by_cases heq : (colon :: name) = colon :: name'
        · rw [hname, hname', heq]
        · exact absurd (clash_of_take_eq htake hname hname' heq rfl rfl)
            (hR r (kept_subset i h.1) r' (kept_subset i h'.1))

theorem kept_of_take_eq {i : Nat} (h : r ∈ kept R path i) (hr' : r' ∈ R)
    (htake : r'.pattern.take i = r.pattern.take i) : r' ∈ kept R path i := by
  induction i with
  | zero => exact hr'
  | succ i ih =>
    have hbefore : r'.pattern.take i = r.pattern.take i := by
      have := congrArg (List.take i) htake
      simpa [List.take_take] using this
    have hat : r'.pattern[i]? = r.pattern[i]? := by
      have := congrArg (fun l => l[i]?) htake
      simpa [List.getElem?_take] using this
    refine ⟨ih h.1 hbefore, fun s hs => ?_⟩
    rw [LiteralAt, ParamAt, hat]
    exact h.2 s hs

theorem mem_kept_iff (hR : ∀ r ∈ R, ∀ r' ∈ R, ¬ HttpRouter.Clash r.pattern r'.pattern) {i : Nat}
    (hi : i ≤ path.length) : r ∈ kept R path i ↔ r ∈ R ∧ ∀ j < i, ∀ s, path[j]? = some s →
      LiteralAt r j s ∨ (ParamAt r j ∧
        ¬ ∃ r' ∈ R, r'.pattern.take j = r.pattern.take j ∧ LiteralAt r' j s) := by
  induction i with
  | zero => simp [kept]
  | succ i ih =>
    -- what shadows the place is what is kept and has the literal there
    have hshadow (hr : r ∈ kept R path i) (s : Bytes) :
        (∀ r' ∈ kept R path i, ¬ LiteralAt r' i s) ↔
          ¬ ∃ r' ∈ R, r'.pattern.take i = r.pattern.take i ∧ LiteralAt r' i s := by
      constructor
      · rintro hno ⟨r', hr', htake, hl⟩
        exact hno r' (kept_of_take_eq hr hr' htake) hl
      · intro hno r' hr' hl
        exact hno ⟨r', kept_subset i hr', take_eq_of_kept hR (by omega) hr' hr, hl⟩
    constructor
    · rintro ⟨hr, hlast⟩
      obtain ⟨hrR, hbefore⟩ := (ih (by omega)).mp hr
      refine ⟨hrR, fun j hj s hs => ?_⟩
      rcases Nat.lt_succ_iff_lt_or_eq.mp hj with hj | rfl
      · exact hbefore j hj s hs
      · exact (hlast s hs).imp_right fun h => ⟨h.2, (hshadow hr s).mp h.1⟩
    · rintro ⟨hrR, hall⟩
      have hr := (ih (by omega)).mpr ⟨hrR, fun j hj => hall j (by omega)⟩
      exact ⟨hr, fun s hs => (hall i (Nat.lt_succ_self i) s hs).imp_right fun h =>
        ⟨(hshadow hr s).mpr h.2, h.1⟩⟩

theorem fits_iff (p path : List Bytes) : Fits p path ↔ p.length = path.length ∧
    ∀ (j : Nat) s, path[j]? = some s →
      (p[j]? = some s ∧ ¬ IsParam s) ∨ ∃ name, p[j]? = some (colon :: name) := by
  induction p generalizing path with
  | nil =>
    cases path with
    | nil => simp [Fits]
    | cons s path => simp [Fits]
  | cons x p ih =>
    cases path with
    | nil => simp [Fits]
    | cons s path =>
      have hfirst : FitsSegment x s ↔ (x = s ∧ ¬ IsParam s) ∨ ∃ name, x = colon :: name := by
        constructor
        · rintro (hx | rfl)
          · exact .inr ⟨x.tail, HttpRouter.param_eq x hx⟩
          · by_cases hx : IsParam x
            · exact .inr ⟨x.tail, HttpRouter.param_eq x hx⟩
            · exact .inl ⟨rfl, hx⟩
        · rintro (⟨rfl, -⟩ | ⟨name, rfl⟩)
          · exact .inr rfl
          · exact .inl rfl
      have hrest := ih path
      rw [Fits] at hrest
      rw [Fits, List.forall₂_cons, hrest, hfirst]
      constructor
      · rintro ⟨hx, hlen, htail⟩
        refine ⟨congrArg (· + 1) hlen, fun j s' hs' => ?_⟩
        cases j with
        | zero =>
          obtain rfl : s = s' := Option.some.inj hs'
          simpa using hx
        | succ j => exact htail j s' hs'
      · rintro ⟨hlen, hall⟩
        exact ⟨by simpa using hall 0 s rfl, Nat.succ.inj hlen, fun j s' hs' => hall (j + 1) s' hs'⟩

theorem selects_iff (hR : ∀ r ∈ R, ∀ r' ∈ R, ¬ HttpRouter.Clash r.pattern r'.pattern)
    (method : HttpMethod) : Selects R method path r ↔
      r ∈ R ∧ r.method = method ∧ Fits r.pattern path ∧ Unshadowed R path r := by
  have hinside : ∀ {j : Nat} {s : Bytes}, path[j]? = some s → j < path.length := fun hs =>
    (List.getElem?_eq_some_iff.mp hs).1
  rw [Selects, mem_kept_iff hR (Nat.le_refl _), fits_iff]
  constructor
  · rintro ⟨⟨hr, hall⟩, hlen, hmethod⟩
    refine ⟨hr, hmethod, ⟨hlen, fun j s hs => ?_⟩, fun j s hs hparam => ?_⟩
    · exact (hall j (hinside hs) s hs).imp_right And.left
    · obtain ⟨name, hname⟩ := hparam
      rcases hall j (hinside hs) s hs with hl | ⟨-, hno⟩
      · have heq := Option.some.inj (hl.1.symm.trans hname)
        exact absurd (show IsParam s by rw [heq]; rfl) hl.2
      · exact hno
  · rintro ⟨hr, hmethod, ⟨hlen, hfits⟩, hfree⟩
    refine ⟨⟨hr, fun j _ s hs => ?_⟩, hlen, hmethod⟩
    rcases hfits j s hs with hl | hparam
    · exact .inl hl
    · exact .inr ⟨hparam, hfree j s hs hparam⟩

theorem not_clash_of_pairwise {calls : List (RouterCall E)}
    (h : calls.Pairwise fun r r' => ¬ RouterCall.Conflict r r') (hr : r ∈ calls) (hr' : r' ∈ calls) :
    ¬ HttpRouter.Clash r.pattern r'.pattern := by
  have hself : ∀ p : List Bytes, ¬ HttpRouter.Clash p p := by
    intro p
    induction p with
    | nil => exact id
    | cons s p ih => rwa [HttpRouter.clash_cons_self]
  by_cases heq : r = r'
  · rw [heq]
    exact hself _
  · have hsymm : Std.Symm fun r r' : RouterCall E => ¬ RouterCall.Conflict r r' :=
      ⟨fun _ _ hc hc' => hc hc'.symm⟩
    exact fun hc => h.forall hr hr' heq (.inr hc)

end Routing

namespace HttpRouter

variable {E : Type}

theorem matchSegments_params (method : HttpMethod) (segs : List Bytes) (t : HttpRouter E)
    (params params' : List (Bytes × Bytes)) :
    (matchSegments method segs t params).map Prod.fst =
      (matchSegments method segs t params').map Prod.fst := by
  induction segs generalizing t params params' with
  | nil =>
    rw [matchSegments, matchSegments]
    cases t.getEndpointVar method <;> rfl
  | cons s segs ih =>
    rw [matchSegments, matchSegments]
    split
    · exact ih _ _ _
    · split
      · cases t.paramRoute with
        | none => rfl
        | some c => exact ih _ _ _
      · rfl

end HttpRouter

namespace Routing

variable {E : Type}

/-- A router built by calls none of which throws answers a path exactly if a pattern of the method fits it
and is not shadowed by any other. -/
theorem matchPath_complete (calls : List (RouterCall E)) (t : HttpRouter E)
    (hbuilt : RouterCall.runAll HttpRouter.new calls = (t, .ok ())) (method : HttpMethod)
    (hm : HttpRouter.Supported method) (path : Bytes) (params : List (Bytes × Bytes)) :
    ∃ answer params', t.matchPath method path params = .ok (answer, params') ∧
      (answer ≠ none ↔ ∃ r ∈ calls, r.method = method ∧ Fits r.pattern (segments path) ∧
        Unshadowed {r | r ∈ calls} (segments path) r) := by
  have hok := (RouterCall.runAll_ok_iff RouterCall.represents_new calls).mp ⟨t, hbuilt⟩
  have hrep := RouterCall.represents_new.runAll hbuilt
  rw [Set.empty_union] at hrep
  have hspec : ∃ answer bound, HttpRouter.matchSegments method (segments path) t [] =
      .ok (answer, bound) ∧ ∀ e, answer = some e ↔
        ∃ r, Selects {r | r ∈ calls} method (segments path) r ∧ r.endpoint = e := by
    obtain ⟨answer, bound, hmatch, hanswer, -⟩ := matchSegments_spec hm [] [] rfl rfl hrep.1 hrep.2
      fun r => by simp [kept]
    exact ⟨answer, bound, hmatch, hanswer⟩
  obtain ⟨answer, bound, hmatch, hanswer⟩ := hspec
  have hsame := HttpRouter.matchSegments_params method (segments path) t params []
  rw [hmatch] at hsame
  rw [HttpRouter.matchPath_eq]
  cases hrun : HttpRouter.matchSegments method (segments path) t params with
  | error e => rw [hrun] at hsame; cases hsame
  | ok p =>
    obtain ⟨answer', params'⟩ := p
    rw [hrun] at hsame
    obtain rfl : answer' = answer := Except.ok.inj hsame
    refine ⟨answer', params', rfl, ?_⟩
    rw [← Option.isSome_iff_ne_none, Option.isSome_iff_exists]
    simp only [hanswer]
    have hselects (r : RouterCall E) : Selects {r | r ∈ calls} method (segments path) r ↔
        r ∈ calls ∧ r.method = method ∧ Fits r.pattern (segments path) ∧
          Unshadowed {r | r ∈ calls} (segments path) r :=
      selects_iff (fun r hr r' hr' => not_clash_of_pairwise hok.2 hr hr') method
    simp only [hselects]
    constructor
    · rintro ⟨e, r, ⟨hr, hmethod, hfits, hfree⟩, -⟩
      exact ⟨r, hr, hmethod, hfits, hfree⟩
    · rintro ⟨r, hr, hmethod, hfits, hfree⟩
      exact ⟨r.endpoint, r, ⟨hr, hmethod, hfits, hfree⟩, rfl⟩

theorem matchPath_complete_users :
    let calls : List (RouterCall Nat) := [.get (ascii "/users/:id") 1]
    ∃ answer params', (RouterCall.runAll HttpRouter.new calls).1.matchPath .GET
        (ascii "/users/7") [] = .ok (answer, params') ∧
      (answer ≠ none ↔ ∃ r ∈ calls, r.method = .GET ∧
        Fits r.pattern (segments (ascii "/users/7")) ∧
        Unshadowed {r | r ∈ calls} (segments (ascii "/users/7")) r) := by
  intro calls
  have hbuilt : RouterCall.runAll HttpRouter.new calls =
      ((RouterCall.runAll HttpRouter.new calls).1, .ok ()) := by
    refine Prod.ext rfl ?_
    simp only [calls, RouterCall.runAll, RouterCall.run_eq]
    rfl
  exact matchPath_complete calls _ hbuilt .GET (.inl rfl) (ascii "/users/7") []

/-- `POST /a/c` takes the path `/a/b` away from `GET /:x/b`. -/
theorem matchPath_shadowed :
    let calls : List (RouterCall Nat) := [.get (ascii "/:x/b") 1, .post (ascii "/a/c") 2]
    ∃ t, RouterCall.runAll HttpRouter.new calls = (t, .ok ()) ∧
      (∃ r ∈ calls, r.method = .GET ∧ Fits r.pattern (segments (ascii "/a/b"))) ∧
      t.matchPath .GET (ascii "/a/b") [] = .ok (none, []) := by
  intro calls
  refine ⟨(RouterCall.runAll HttpRouter.new calls).1, Prod.ext rfl ?_, ?_, ?_⟩
  · simp only [calls, RouterCall.runAll, RouterCall.run_eq]
    rfl
  · exact ⟨_, List.mem_cons_self, rfl, .cons (.inl rfl) (.cons (.inr rfl) .nil)⟩
  · rw [HttpRouter.matchPath_eq]
    simp only [calls, RouterCall.runAll, RouterCall.run_eq]
    rfl

end Routing

/-! ## Methods that the router does not know -/

namespace HttpRouter

variable {E : Type}

/-- `match` gets along the segments to a node. -/
def LeadsTo : List Bytes → HttpRouter E → Prop
  | [], _ => True
  | s :: segs, t =>
      match find (· == ·) t.routes s with
      | some c => LeadsTo segs c
      | none => t.pathParam ≠ [] ∧ ∃ c, t.paramRoute = some c ∧ LeadsTo segs c

theorem matchSegments_supported {method : HttpMethod} (hm : Supported method) (segs : List Bytes)
    (t : HttpRouter E) (params : List (Bytes × Bytes)) :
    ∃ answer, matchSegments method segs t params = .ok answer := by
  induction segs generalizing t params with
  | nil => rcases hm with rfl | rfl <;> exact ⟨_, rfl⟩
  | cons s segs ih =>
    rw [matchSegments]
    split
    · exact ih _ _
    · split
      · split
        · exact ih _ _
        · exact ⟨_, rfl⟩
      · exact ⟨_, rfl⟩

theorem getEndpointVar_unsupported {method : HttpMethod} (hm : ¬ Supported method)
    (t : HttpRouter E) : t.getEndpointVar method = .error unsupportedMethod := by
  cases method with
  | GET => exact absurd (.inl rfl) hm
  | POST => exact absurd (.inr rfl) hm
  | HEAD => rfl
  | OPTIONS => rfl

/-- With another method `match` throws where it gets to a node, and answers nothing elsewhere. -/
theorem matchSegments_unsupported {method : HttpMethod} (hm : ¬ Supported method)
    (segs : List Bytes) (t : HttpRouter E) (params : List (Bytes × Bytes)) :
    (LeadsTo segs t → matchSegments method segs t params = .error unsupportedMethod) ∧
      (¬ LeadsTo segs t → ∃ answer, matchSegments method segs t params = .ok answer) := by
  induction segs generalizing t params with
  | nil =>
    refine ⟨fun _ => ?_, fun h => absurd True.intro h⟩
    rw [matchSegments, getEndpointVar_unsupported hm]
    rfl
  | cons s segs ih =>
    rw [matchSegments, LeadsTo]
    cases find (· == ·) t.routes s with
    | some c => exact ih c params
    | none =>
      simp only
      by_cases hparam : t.pathParam ≠ []
      · rw [if_pos hparam]
        cases t.paramRoute with
        | none =>
          refine ⟨?_, fun _ => ⟨_, rfl⟩⟩
          rintro ⟨-, c, hc, -⟩
          cases hc
        | some c =>
          obtain ⟨hleads, hnot⟩ := ih c (assign (· == ·) params t.pathParam s)
          constructor
          · rintro ⟨-, c', hc, hto⟩
            obtain rfl := Option.some.inj hc
            exact hleads hto
          · exact fun h => hnot fun hto => h ⟨hparam, c, rfl, hto⟩
      · rw [if_neg hparam]
        exact ⟨fun h => absurd h.1 hparam, fun _ => ⟨_, rfl⟩⟩

end HttpRouter

/-! ## What a routed request gets -/

namespace HttpServer

variable {E : Type}

/-- What goes out where no endpoint matches. -/
def notFoundText (server : HttpServer E) : Bytes :=
  ascii "HTTP/1.1 404 Not Found" ++
    (crlf ++ ((server.traversal [(contentLength, ascii "0")]).flatMap HttpOutput.lineText ++ crlf))

def notFoundOutput (server : HttpServer E) : HttpOutput where
  status := .NOT_FOUND
  headers := [(contentLength, ascii "0")]
  traversal := server.traversal

theorem finishText_notFound (server : HttpServer E) :
    server.notFoundOutput.finishText = server.notFoundText := by
  have hend : server.notFoundOutput.finishText = ascii "HTTP/1.1 " ++ (ascii "404 Not Found" ++
      (crlf ++ ((server.traversal [(contentLength, ascii "0")]).flatMap HttpOutput.lineText ++
        crlf))) ++ [] := rfl
  rw [hend, List.append_nil, ← List.append_assoc]
  rfl

theorem respond_notFound (server : HttpServer E) (req : HttpRequest) (body : HttpBody)
    {c : Connection E} (hsends : c.sock.output.SendsSucceed) :
    ((respond server none req body).run c).2.sock.output.sent =
      c.sock.output.written ++ server.notFoundText := by
  let res := server.notFoundOutput
  have hserve : (Exchange.serve notFound).run (opened server body c) =
      (.returned (), { opened server body c with res := res }) := rfl
  obtain ⟨s, hfinish, hw, hunread⟩ := HttpOutput.finish_run (o := { res := res, sock := c.sock }) hsends
  have hout := Exchange.onOutput_run (e := { opened server body c with res := res }) hfinish
  have hok : res.sendHeaders.1 = .ok () := rfl
  rw [hok] at hout
  have hkept := Exchange.onBody_keeps HttpBody.hasIncoming_keeps
    { opened server body c with res := res.sendHeaders.2, sock := s }
  have hrun : ((Exchange.complete notFound).run (opened server body c)).2.sock.output = s.output := by
    rw [Exchange.complete, Coro.bind_returned _ hserve, Exchange.finish, Coro.bind_returned _ hout]
    exact hkept
  show ((Exchange.complete notFound).run (opened server body c)).2.sock.output.sent = _
  have hwritten : s.output.sent = s.output.written := by
    rw [Output.written, hunread hok, List.append_nil]
  rw [hrun, hwritten, hw.2.2.2, finishText_notFound]

/-- A routed request is answered: by the endpoint that matches, which is called with it; or, where none
does, with `404 Not Found`, which goes out if the sends succeed. -/
def IsAnswered (server : HttpServer E) (req : HttpRequest) (body : HttpBody) (c : Connection E)
    (endpoint : Option E) (bound : List (Bytes × Bytes)) : Prop :=
  let r := (server.handleRequest req body).run c
  r.2 = ((server.respond endpoint (req.setPathParams bound) body).run c).2 ∧
  match endpoint with
  | some e => ∃ received, r.2.calls =
      c.calls ++ [{ endpoint := e, request := req.setPathParams bound, received := received }]
  | none => r.2.calls = c.calls ∧
      (c.sock.output.SendsSucceed → r.2.sock.output.sent = c.sock.output.written ++ server.notFoundText)

theorem isAnswered_of_match {server : HttpServer E} {req : HttpRequest} {endpoint : Option E}
    {bound : List (Bytes × Bytes)}
    (h : server.router.matchPath req.method req.path [] = .ok (endpoint, bound)) (body : HttpBody)
    (c : Connection E) : server.IsAnswered req body c endpoint bound := by
  have hrun : ((server.handleRequest req body).run c).2 =
      ((server.respond endpoint (req.setPathParams bound) body).run c).2 := by
    rw [handleRequest, h]
    exact Coro.run_bind_pure_snd _ _ c
  refine ⟨hrun, ?_⟩
  rw [hrun]
  cases endpoint with
  | some e => exact ⟨_, rfl⟩
  | none => exact ⟨List.append_nil _, respond_notFound server _ body⟩

end HttpServer

open HttpRouter in
/-- A request is routed, on a router that any calls have built, exactly if the router has a variable for
its method or its path leads to no node. Then it is answered; otherwise it gets no answer at all. -/
theorem matchPath_routes_iff {E : Type} (calls : List (Registration E)) (req : HttpRequest)
    (params : List (Bytes × Bytes)) :
    ((∃ answer, (Registration.after .new calls).matchPath req.method req.path params = .ok answer) ↔
      Supported req.method ∨ ¬ LeadsTo (segments req.path) (Registration.after .new calls)) ∧
    ∀ server : HttpServer E, server.router = Registration.after .new calls →
      (Supported req.method ∨ ¬ LeadsTo (segments req.path) (Registration.after .new calls) →
        ∃ endpoint bound, server.router.matchPath req.method req.path [] = .ok (endpoint, bound) ∧
          ∀ body c, server.IsAnswered req body c endpoint bound) ∧
      (¬ (Supported req.method ∨ ¬ LeadsTo (segments req.path) (Registration.after .new calls)) →
        ∀ body c, (server.handleRequest req body).run c = (.threw unsupportedMethod, c)) := by
  have hthrows (h : ¬ (Supported req.method ∨
      ¬ LeadsTo (segments req.path) (Registration.after .new calls)))
      (params : List (Bytes × Bytes)) :
      (Registration.after .new calls).matchPath req.method req.path params =
        .error unsupportedMethod := by
    rw [not_or, not_not] at h
    rw [matchPath_eq]
    exact (matchSegments_unsupported h.1 _ _ params).1 h.2
  have hroutes (h : Supported req.method ∨
      ¬ LeadsTo (segments req.path) (Registration.after .new calls))
      (params : List (Bytes × Bytes)) : ∃ answer,
      (Registration.after .new calls).matchPath req.method req.path params = .ok answer := by
    rw [matchPath_eq]
    by_cases hm : Supported req.method
    · exact matchSegments_supported hm _ _ params
    · exact (matchSegments_unsupported hm _ _ params).2 (h.resolve_left hm)
  refine ⟨⟨fun ⟨answer, hanswer⟩ => ?_, fun h => hroutes h params⟩, fun server hrouter =>
    ⟨fun h => ?_, fun h body c => ?_⟩⟩
  · by_contra h
    rw [hthrows h] at hanswer
    cases hanswer
  · obtain ⟨⟨endpoint, bound⟩, hmatch⟩ := hroutes h []
    rw [← hrouter] at hmatch
    exact ⟨endpoint, bound, hmatch, HttpServer.isAnswered_of_match hmatch⟩
  · rw [HttpServer.handleRequest, hrouter, hthrows h]
    rfl

/-- `HEAD /` is parsed, and no router routes it. -/
theorem matchPath_throws_head : ∃ req : HttpRequest,
    ({} : HttpRequest).processReqLine (ascii "HEAD / HTTP/1.1") = (true, req) ∧
      ¬ ∃ answer, (Registration.after (.new : HttpRouter Unit) []).matchPath req.method req.path [] =
        .ok answer := by
  refine ⟨_, rfl, ?_⟩
  rintro ⟨answer, hanswer⟩
  rw [HttpRouter.matchPath_eq] at hanswer
  cases hanswer

end CppEvent
