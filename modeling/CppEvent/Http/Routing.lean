import CppEvent.Http.Router

/-!
# What a router answers

The router as a set of registered patterns. `lookup` reads a trie as a map from patterns and methods
to endpoints; a trie without dead branches (`WellFormed`) is determined by that map. A registration
adds one entry to it (`setSegments_ok`), and succeeds unless it conflicts with an entry that is
there (`setSegments_ok_iff`). Matching then follows the patterns that agree with the path so far,
literals before parameters (`kept`), whatever the order they were registered in.
-/

namespace CppEvent

open AssocMap

abbrev segments (path : Bytes) : List Bytes := splitString path slash

def IsParam (s : Bytes) : Prop := s.head? = some colon

instance (s : Bytes) : Decidable (IsParam s) := inferInstanceAs (Decidable (s.head? = some colon))

namespace HttpRouter

variable {E : Type}

/-! ## Along segments

`set_endpoint` and `match` only ever look at the segments of a path. -/

def setSegments (method : HttpMethod) (endpoint : Option E) :
    List Bytes → HttpRouter E → HttpRouter E × Except Exn Unit
  | [], t =>
      match t.getEndpointVar method with
      | .error e => (t, .error e)
      | .ok (some _) => (t, .error (.runtimeError "http_router set_endpoint: duplicate endpoint"))
      | .ok none =>
          match t.setEndpointVar endpoint method with
          | .error e => (t, .error e)
          | .ok t => (t, .ok ())
  | s :: segs, t =>
      if IsParam s ∧ 1 < s.length then
        if t.pathParam ≠ [] ∧ t.pathParam ≠ s.tail then
          (t, .error (.runtimeError "http_router set_endpoint: path parameter name clash"))
        else
          let r := setSegments method endpoint segs (t.paramRoute.getD new)
          ({ t with pathParam := s.tail, paramRoute := some r.1 }, r.2)
      else if IsParam s then
        (t, .error (.runtimeError "http_router set_endpoint: invalid path parameter name"))
      else
        let r := setSegments method endpoint segs ((find (· == ·) t.routes s).getD new)
        ({ t with routes := assign (· == ·) t.routes s r.1 }, r.2)

def matchSegments (method : HttpMethod) : List Bytes → HttpRouter E → List (Bytes × Bytes) →
    Except Exn (Option E × List (Bytes × Bytes))
  | [], t, params => (t.getEndpointVar method).map fun e => (e, params)
  | s :: segs, t, params =>
      match find (· == ·) t.routes s with
      | some child => matchSegments method segs child params
      | none =>
          if t.pathParam ≠ [] then
            match t.paramRoute with
            | some child =>
                matchSegments method segs child (assign (· == ·) params t.pathParam s)
            | none => .ok (none, params)
          else .ok (none, params)

theorem segments_of_isRoot {path : Bytes} (h : (SplitPath.split path).isRoot) :
    segments path = [] := by
  rw [segments, ← splitString_dropWhile]
  simp only [SplitPath.isRoot, SplitPath.split, List.isEmpty_iff] at h
  cases hd : path.dropWhile (· == slash) with
  | nil => rfl
  | cons c cs =>
    have hc := List.head?_dropWhile_not (· == slash) path
    simp only [hd, List.head?_cons] at hc
    rw [hd, List.takeWhile_cons_of_pos (by simpa using hc)] at h
    exact absurd h (List.cons_ne_nil _ _)

theorem segments_of_not_isRoot {path : Bytes} (h : ¬ (SplitPath.split path).isRoot) :
    segments path = (SplitPath.split path).first :: segments (SplitPath.split path).remaining := by
  rw [segments, ← splitString_dropWhile]
  simp only [SplitPath.split]
  cases hd : path.dropWhile (· == slash) with
  | nil => simp [SplitPath.isRoot, SplitPath.split, hd] at h
  | cons c cs =>
    have hc := List.head?_dropWhile_not (· == slash) path
    simp only [hd, List.head?_cons] at hc
    rw [splitString_cons slash (by simpa using hc)]

theorem setEndpoint_eq (t : HttpRouter E) (method : HttpMethod) (path : Bytes)
    (endpoint : Option E) :
    t.setEndpoint method path endpoint = setSegments method endpoint (segments path) t := by
  induction hn : path.length using Nat.strong_induction_on generalizing t path with
  | _ n ih =>
    subst hn
    rw [setEndpoint]
    by_cases hr : (SplitPath.split path).isRoot
    · simp only [hr, dite_true, segments_of_isRoot hr]
      rfl
    · have hlt := SplitPath.length_remaining_lt (Bool.eq_false_iff.mpr hr)
      simp only [hr, dite_false, segments_of_not_isRoot hr, Bool.false_eq_true]
      simp only [ih _ hlt _ _ rfl]
      rfl

theorem matchPath_eq (t : HttpRouter E) (method : HttpMethod) (path : Bytes)
    (params : List (Bytes × Bytes)) :
    t.matchPath method path params = matchSegments method (segments path) t params := by
  induction hn : path.length using Nat.strong_induction_on generalizing t path params with
  | _ n ih =>
    subst hn
    rw [matchPath]
    by_cases hr : (SplitPath.split path).isRoot
    · simp only [hr, dite_true, segments_of_isRoot hr, matchSegments]
    · have hlt := SplitPath.length_remaining_lt (Bool.eq_false_iff.mpr hr)
      simp only [hr, dite_false, segments_of_not_isRoot hr, Bool.false_eq_true, ih _ hlt _ _ _ rfl]
      rfl

/-! ## The trie as a map -/

def endpointAt (t : HttpRouter E) : HttpMethod → Option E
  | .GET => t.getEndpoint
  | .POST => t.postEndpoint
  | _ => none

def child (t : HttpRouter E) (s : Bytes) : Option (HttpRouter E) :=
  if IsParam s then if t.pathParam = s.tail then t.paramRoute else none
  else find (· == ·) t.routes s

def lookup (method : HttpMethod) : List Bytes → HttpRouter E → Option E
  | [], t => t.endpointAt method
  | s :: p, t => (t.child s).bind (lookup method p)

/-- Some endpoint is registered below. -/
def Live (t : HttpRouter E) : Prop := ∃ method p e, lookup method p t = some e

/-- The representation invariant: a parameter has a name exactly if it has a subtrie, literals do
not look like parameters, and no branch is dead. -/
inductive WellFormed : HttpRouter E → Prop where
  | intro (t : HttpRouter E) (hparam : t.pathParam = [] ↔ t.paramRoute = none)
      (hliteral : ∀ s, IsParam s → find (· == ·) t.routes s = none)
      (hchild : ∀ s c, t.child s = some c → WellFormed c)
      (hlive : ∀ s c, t.child s = some c → Live c) : WellFormed t

namespace WellFormed

variable {t : HttpRouter E}

theorem param (h : WellFormed t) : t.pathParam = [] ↔ t.paramRoute = none := by
  cases h; assumption

theorem literal (h : WellFormed t) {s : Bytes} (hs : IsParam s) :
    find (· == ·) t.routes s = none := by
  cases h with | intro _ _ hliteral => exact hliteral s hs

theorem child (h : WellFormed t) {s : Bytes} {c : HttpRouter E} (hc : t.child s = some c) :
    WellFormed c := by
  cases h with | intro _ _ _ hchild => exact hchild s c hc

theorem live (h : WellFormed t) {s : Bytes} {c : HttpRouter E} (hc : t.child s = some c) :
    Live c := by
  cases h with | intro _ _ _ _ hlive => exact hlive s c hc

end WellFormed

@[simp] theorem child_new (s : Bytes) : (new : HttpRouter E).child s = none := by
  simp [child, new, find]

@[simp] theorem lookup_new (method : HttpMethod) (p : List Bytes) :
    lookup method p (new : HttpRouter E) = none := by
  cases p with
  | nil => cases method <;> rfl
  | cons s p => simp [lookup]

theorem wellFormed_new : WellFormed (new : HttpRouter E) :=
  .intro _ (by simp [new]) (by simp [new, find]) (by simp) (by simp)

theorem param_eq (s : Bytes) (h : IsParam s) : s = colon :: s.tail := by
  cases s with
  | nil => simp [IsParam] at h
  | cons c s => simpa [IsParam] using h

theorem paramRoute_getD {t : HttpRouter E} (h : WellFormed t) {s : Bytes} (hs : IsParam s)
    (hok : t.pathParam = [] ∨ t.pathParam = s.tail) :
    t.paramRoute.getD new = (t.child s).getD new := by
  rw [child, if_pos hs]
  by_cases hn : t.pathParam = s.tail
  · rw [if_pos hn]
  · rw [if_neg hn, h.param.mp (hok.resolve_right hn)]

theorem lookup_getD_child (method : HttpMethod) (p : List Bytes) (t : HttpRouter E) (s : Bytes) :
    lookup method p ((t.child s).getD new) = lookup method (s :: p) t := by
  cases h : t.child s <;> simp [lookup, h]

theorem WellFormed.getD_child {t : HttpRouter E} (h : WellFormed t) (s : Bytes) :
    WellFormed ((t.child s).getD new) := by
  cases hc : t.child s with
  | none => exact wellFormed_new
  | some c => exact h.child hc

/-! ## Registering -/

/-- What a registration through `s` makes of a node whose child under `s` becomes `c`. -/
theorem wellFormed_put {t t' c : HttpRouter E} {s : Bytes} (h : WellFormed t)
    (hparam : t'.pathParam = [] ↔ t'.paramRoute = none)
    (hliteral : ∀ s, IsParam s → find (· == ·) t'.routes s = none)
    (hself : t'.child s = some c) (hother : ∀ s₁, s₁ ≠ s → t'.child s₁ = t.child s₁)
    (hc : WellFormed c) (hlive : Live c) : WellFormed t' := by
  refine .intro _ hparam hliteral (fun s₁ c₁ h₁ => ?_) (fun s₁ c₁ h₁ => ?_)
  · by_cases hs : s₁ = s
    · rw [hs, hself, Option.some.injEq] at h₁
      exact h₁ ▸ hc
    · exact h.child (hother s₁ hs ▸ h₁)
  · by_cases hs : s₁ = s
    · rw [hs, hself, Option.some.injEq] at h₁
      exact h₁ ▸ hlive
    · exact h.live (hother s₁ hs ▸ h₁)

/-- A registration that succeeds adds its own entry and changes no other. -/
theorem setSegments_ok {method : HttpMethod} {e : E} {p : List Bytes} {t t' : HttpRouter E}
    (h : WellFormed t) (hset : setSegments method (some e) p t = (t', .ok ())) :
    WellFormed t' ∧ ∀ m q,
      lookup m q t' = if m = method ∧ q = p then some e else lookup m q t := by
  induction p generalizing t t' with
  | nil =>
    obtain ⟨_, hp, hl, hc, hlv⟩ := h
    cases method with
    | GET =>
      cases hg : t.getEndpoint with
      | some _ => simp [setSegments, getEndpointVar, hg] at hset
      | none =>
        simp only [setSegments, getEndpointVar, setEndpointVar, hg, Prod.mk.injEq, and_true] at hset
        subst hset
        refine ⟨.intro _ hp hl hc hlv, fun m q => ?_⟩
        cases q with
        | nil => cases m <;> simp [lookup, endpointAt]
        | cons s q => simp [lookup, child]
    | POST =>
      cases hg : t.postEndpoint with
      | some _ => simp [setSegments, getEndpointVar, hg] at hset
      | none =>
        simp only [setSegments, getEndpointVar, setEndpointVar, hg, Prod.mk.injEq, and_true] at hset
        subst hset
        refine ⟨.intro _ hp hl hc hlv, fun m q => ?_⟩
        cases q with
        | nil => cases m <;> simp [lookup, endpointAt]
        | cons s q => simp [lookup, child]
    | HEAD => simp [setSegments, getEndpointVar] at hset
    | OPTIONS => simp [setSegments, getEndpointVar] at hset
  | cons s p ih =>
    -- the node put back has the new subtrie under `s` and the old ones elsewhere
    obtain ⟨c, hrec, hself, hother, hend, hp, hl⟩ : ∃ c,
        setSegments method (some e) p ((t.child s).getD new) = (c, .ok ()) ∧
        t'.child s = some c ∧ (∀ s₁, s₁ ≠ s → t'.child s₁ = t.child s₁) ∧
        (∀ m, t'.endpointAt m = t.endpointAt m) ∧
        (t'.pathParam = [] ↔ t'.paramRoute = none) ∧
        ∀ s, IsParam s → find (· == ·) t'.routes s = none := by
      rw [setSegments] at hset
      by_cases hs : IsParam s ∧ 1 < s.length
      · rw [if_pos hs] at hset
        by_cases hclash : t.pathParam ≠ [] ∧ t.pathParam ≠ s.tail
        · simp [hclash] at hset
        · rw [if_neg hclash, paramRoute_getD h hs.1 (by tauto)] at hset
          obtain ⟨rfl, hres⟩ := Prod.mk.inj hset
          have hne : s.tail ≠ [] := by
            intro hnil
            have := congrArg List.length hnil
            simp at this
            omega
          refine ⟨_, Prod.ext rfl hres, by simp [child, hs.1], fun s₁ hs₁ => ?_, fun m => ?_,
            by simpa using hne, fun s hs => h.literal hs⟩
          · by_cases hp₁ : IsParam s₁
            · have htail : s.tail ≠ s₁.tail := fun heq =>
                hs₁ (by rw [param_eq s₁ hp₁, param_eq s hs.1, heq])
              have hold : t.pathParam ≠ s₁.tail ∨ t.paramRoute = none := by
                by_cases hn : t.pathParam = []
                · exact .inr (h.param.mp hn)
                · refine .inl fun heq => htail ?_
                  rw [← heq]
                  exact (not_not.mp (not_and.mp hclash hn)).symm
              rcases hold with hold | hold <;> simp [child, htail, hold]
            · simp [child, hp₁]
          · cases m <;> rfl
      · rw [if_neg hs] at hset
        by_cases hs' : IsParam s
        · rw [if_pos hs'] at hset
          simp at hset
        · rw [if_neg hs', show find (· == ·) t.routes s = t.child s by rw [child, if_neg hs']]
            at hset
          obtain ⟨rfl, hres⟩ := Prod.mk.inj hset
          refine ⟨_, Prod.ext rfl hres, ?_, fun s₁ hs₁ => ?_, fun m => ?_, h.param,
            fun s₁ hs₁ => ?_⟩
          · simp [child, hs', find_assign isEquality_beq]
          · by_cases hp₁ : IsParam s₁
            · simp [child, hp₁]
            · simp [child, hp₁, find_assign isEquality_beq, Ne.symm hs₁]
          · cases m <;> rfl
          · rw [find_assign isEquality_beq, if_neg, h.literal hs₁]
            rintro heq
            rw [beq_iff_eq] at heq
            exact hs' (heq ▸ hs₁)
    obtain ⟨hwf, hlook⟩ := ih (h.getD_child s) hrec
    refine ⟨wellFormed_put h hp hl hself hother hwf ⟨method, p, e, by simp [hlook]⟩, fun m q => ?_⟩
    cases q with
    | nil => simp [lookup, hend]
    | cons s₁ q =>
      by_cases hs₁ : s₁ = s
      · subst hs₁
        simp only [lookup, hself, Option.bind_some, hlook, lookup_getD_child, List.cons.injEq,
          true_and]
      · simp [lookup, hother s₁ hs₁, hs₁]

/-- Two patterns name different parameters in the same place. -/
def Clash : List Bytes → List Bytes → Prop
  | s :: p, s' :: q => if s = s' then Clash p q else IsParam s ∧ IsParam s'
  | _, _ => False

theorem Clash.symm : ∀ {p q : List Bytes}, Clash p q → Clash q p
  | [], _, h => h.elim
  | _ :: _, [], h => h.elim
  | s :: p, s' :: q, h => by
      rw [Clash] at h ⊢
      by_cases hs : s = s'
      · rw [if_pos hs] at h
        rw [if_pos hs.symm]
        exact Clash.symm h
      · rw [if_neg hs] at h
        rw [if_neg (Ne.symm hs)]
        exact ⟨h.2, h.1⟩

theorem clash_cons_self (s : Bytes) (p q : List Bytes) : Clash (s :: p) (s :: q) ↔ Clash p q := by
  rw [Clash, if_pos rfl]

/-- `method`s that have an endpoint variable. -/
def Supported (method : HttpMethod) : Prop := method = .GET ∨ method = .POST

theorem setSegments_nil {method : HttpMethod} (hm : Supported method) (e : Option E)
    (t : HttpRouter E) :
    (setSegments method e [] t).2 = .ok () ↔ lookup method [] t = none := by
  rcases hm with rfl | rfl
  · cases hg : t.getEndpoint <;>
      simp [setSegments, getEndpointVar, setEndpointVar, lookup, endpointAt, hg]
  · cases hg : t.postEndpoint <;>
      simp [setSegments, getEndpointVar, setEndpointVar, lookup, endpointAt, hg]

/-- Entries whose first segment differs from a literal or the one parameter of a node cannot clash
with it. -/
theorem not_clash_of_ne {t : HttpRouter E} (h : WellFormed t) {s s' : Bytes} {p q : List Bytes}
    {m : HttpMethod} (hok : IsParam s → t.pathParam = [] ∨ t.pathParam = s.tail) (hs : s ≠ s')
    (hq : lookup m (s' :: q) t ≠ none) : ¬ Clash (s :: p) (s' :: q) := by
  rw [Clash, if_neg hs]
  rintro ⟨hp, hp'⟩
  obtain ⟨c, hc⟩ : ∃ c, t.child s' = some c := by
    rw [← Option.isSome_iff_exists, Option.isSome_iff_ne_none]
    exact fun hn => hq (by simp [lookup, hn])
  rw [child, if_pos hp'] at hc
  by_cases hn : t.pathParam = s'.tail
  · rw [if_pos hn] at hc
    rcases hok hp with hnil | heq
    · rw [h.param.mp hnil] at hc
      exact absurd hc (Option.some_ne_none c).symm
    · exact hs (by rw [param_eq s hp, param_eq s' hp', ← heq, hn])
  · rw [if_neg hn] at hc
    exact absurd hc (Option.some_ne_none c).symm

/-- A registration succeeds exactly if its pattern has no bare colon, is not taken, and clashes with
no entry. -/
theorem setSegments_ok_iff {method : HttpMethod} (hm : Supported method) {e : Option E}
    {p : List Bytes} {t : HttpRouter E} (h : WellFormed t) (hp : [] ∉ p) :
    (setSegments method e p t).2 = .ok () ↔ [colon] ∉ p ∧ lookup method p t = none ∧
      ∀ m q, lookup m q t ≠ none → ¬ Clash p q := by
  induction p generalizing t with
  | nil => simp [setSegments_nil hm, Clash]
  | cons s p ih =>
    rw [List.mem_cons, not_or] at hp
    -- below the child under `s` are the entries that start with `s`
    have hrec := ih (h.getD_child s) hp.2
    simp only [lookup_getD_child] at hrec
    have hsplit (hok : IsParam s → t.pathParam = [] ∨ t.pathParam = s.tail) :
        (∀ m q, lookup m (s :: q) t ≠ none → ¬ Clash p q) ↔
          ∀ m q, lookup m q t ≠ none → ¬ Clash (s :: p) q := by
      refine ⟨fun hall m q hq => ?_, fun hall m q hq => ?_⟩
      · cases q with
        | nil => exact id
        | cons s' q =>
          by_cases hs : s = s'
          · subst hs
            rw [clash_cons_self]
            exact hall m q hq
          · exact not_clash_of_ne h hok hs hq
      · rw [← clash_cons_self s]
        exact hall m _ hq
    rw [setSegments]
    by_cases hs : IsParam s ∧ 1 < s.length
    · have hbare : [colon] ≠ s := by
        rintro rfl
        simp at hs
      rw [if_pos hs]
      by_cases hclash : t.pathParam ≠ [] ∧ t.pathParam ≠ s.tail
      · rw [if_pos hclash]
        refine ⟨fun hf => by simp at hf, fun ⟨_, _, hall⟩ => ?_⟩
        obtain ⟨c, hc⟩ : ∃ c, t.paramRoute = some c := by
          rw [← Option.isSome_iff_exists, Option.isSome_iff_ne_none]
          exact fun hn => hclash.1 (h.param.mpr hn)
        have hchild : t.child (colon :: t.pathParam) = some c := by
          rw [child, if_pos (by simp [IsParam]), List.tail_cons, if_pos rfl, hc]
        obtain ⟨m, q, e', hq⟩ := h.live hchild
        refine (hall m ((colon :: t.pathParam) :: q) (by simp [lookup, hchild, hq]) ?_).elim
        rw [Clash, if_neg]
        · exact ⟨hs.1, by simp [IsParam]⟩
        · exact fun heq => hclash.2 (by rw [heq, List.tail_cons])
      · rw [if_neg hclash, paramRoute_getD h hs.1 (by tauto)]
        refine hrec.trans ?_
        rw [hsplit (fun _ => by tauto), List.mem_cons, not_or]
        simp [hbare]
    · rw [if_neg hs]
      by_cases hs' : IsParam s
      · have hbare : s = [colon] := by
          have hlen : ¬ 1 < s.length := fun hl => hs ⟨hs', hl⟩
          have htail : s.tail = [] := by
            rw [← List.length_eq_zero_iff, List.length_tail]
            omega
          rw [param_eq s hs', htail]
        rw [if_pos hs']
        simp [hbare]
      · have hbare : [colon] ≠ s := by
          rintro rfl
          exact hs' rfl
        rw [if_neg hs', show find (· == ·) t.routes s = t.child s by rw [child, if_neg hs']]
        refine hrec.trans ?_
        rw [hsplit (fun hp => absurd hp hs'), List.mem_cons, not_or]
        simp [hbare]

/-! ## Matching -/

theorem matchSegments_congr {method : HttpMethod} (hm : Supported method) {segs : List Bytes}
    {t t' : HttpRouter E} (h : WellFormed t) (h' : WellFormed t')
    (heq : ∀ m q, lookup m q t = lookup m q t') (params : List (Bytes × Bytes)) :
    matchSegments method segs t params = matchSegments method segs t' params := by
  -- a child of one is a child of the other, with the same entries
  have hchild : ∀ {t t' : HttpRouter E}, WellFormed t → (∀ m q, lookup m q t = lookup m q t') →
      ∀ {s c}, t.child s = some c →
        ∃ c', t'.child s = some c' ∧ ∀ m q, lookup m q c = lookup m q c' := by
    intro t t' h heq s c hc
    obtain ⟨m, q, e, hq⟩ := h.live hc
    have hlook := heq m (s :: q)
    rw [lookup, hc, Option.bind_some, hq, lookup] at hlook
    obtain ⟨c', hc', _⟩ := Option.bind_eq_some_iff.mp hlook.symm
    refine ⟨c', hc', fun m q => ?_⟩
    simpa [lookup, hc, hc'] using heq m (s :: q)
  induction segs generalizing t t' params with
  | nil =>
    have hend := heq method []
    rcases hm with rfl | rfl <;>
      simp only [lookup, endpointAt] at hend <;> simp [matchSegments, getEndpointVar, hend]
  | cons s segs ih =>
    have hroutes : ∀ {t : HttpRouter E}, WellFormed t → ∀ {c},
        find (· == ·) t.routes s = some c → t.child s = some c ∧ ¬ IsParam s := by
      intro t h c hc
      have hs : ¬ IsParam s := fun hs => by simp [h.literal hs] at hc
      exact ⟨by rw [child, if_neg hs, hc], hs⟩
    have hparam : ∀ {t : HttpRouter E} {c}, t.paramRoute = some c →
        t.child (colon :: t.pathParam) = some c := by
      intro t c hc
      rw [child, if_pos (by simp [IsParam]), List.tail_cons, if_pos rfl, hc]
    rw [matchSegments, matchSegments]
    cases hc : find (· == ·) t.routes s with
    | some c =>
      obtain ⟨hc₁, hs⟩ := hroutes h hc
      obtain ⟨c', hc', hcc'⟩ := hchild h heq hc₁
      rw [child, if_neg hs] at hc'
      simp only [hc']
      exact ih (h.child hc₁) (h'.child (by rw [child, if_neg hs, hc'])) hcc' params
    | none =>
      have hnone : find (· == ·) t'.routes s = none := by
        cases hc' : find (· == ·) t'.routes s with
        | none => rfl
        | some c' =>
          obtain ⟨hc₁, hs⟩ := hroutes h' hc'
          obtain ⟨c, hc₂, _⟩ := hchild h' (fun m q => (heq m q).symm) hc₁
          rw [child, if_neg hs, hc] at hc₂
          exact absurd hc₂ (Option.some_ne_none c).symm
      simp only [hnone]
      cases hr : t.paramRoute with
      | none =>
        have hr' : t'.paramRoute = none := by
          cases hr' : t'.paramRoute with
          | none => rfl
          | some c' =>
            obtain ⟨c, hc₂, _⟩ := hchild h' (fun m q => (heq m q).symm) (hparam hr')
            rw [child, if_pos (by simp [IsParam]), hr, ite_self] at hc₂
            exact absurd hc₂ (Option.some_ne_none c).symm
        rw [if_neg (not_not.mpr (h.param.mpr hr)), if_neg (not_not.mpr (h'.param.mpr hr'))]
      | some c =>
        obtain ⟨c', hc', hcc'⟩ := hchild h heq (hparam hr)
        have hname : t'.pathParam = t.pathParam ∧ t'.paramRoute = some c' := by
          rw [child, if_pos (by simp [IsParam]), List.tail_cons] at hc'
          by_cases hn : t'.pathParam = t.pathParam
          · exact ⟨hn, by rwa [if_pos hn] at hc'⟩
          · rw [if_neg hn] at hc'
            exact absurd hc' (Option.some_ne_none c').symm
        have hne : t.pathParam ≠ [] := fun hn => by simp [h.param.mp hn] at hr
        simp only [hname.1, hname.2, if_pos hne]
        exact ih (h.child (hparam hr)) (h'.child (hparam hname.2)) hcc' _

end HttpRouter

/-! ## Registrations -/

/-- A call of `get` or `post` with an endpoint that is not null. -/
inductive RouterCall (E : Type) where
  | get (path : Bytes) (endpoint : E)
  | post (path : Bytes) (endpoint : E)

namespace RouterCall

variable {E : Type}

def method : RouterCall E → HttpMethod
  | get _ _ => .GET
  | post _ _ => .POST

def endpoint : RouterCall E → E
  | get _ e => e
  | post _ e => e

def pattern : RouterCall E → List Bytes
  | get path _ => segments path
  | post path _ => segments path

def run (t : HttpRouter E) : RouterCall E → HttpRouter E × Except Exn Unit
  | get path e => t.get path (some e)
  | post path e => t.post path (some e)

def runAll (t : HttpRouter E) : List (RouterCall E) → HttpRouter E × Except Exn Unit
  | [] => (t, .ok ())
  | r :: rs =>
      match r.run t with
      | (t, .ok ()) => runAll t rs
      | (t, .error e) => (t, .error e)

/-- Two calls of which the second throws after the first. -/
def Conflict (r r' : RouterCall E) : Prop :=
  (r.method = r'.method ∧ r.pattern = r'.pattern) ∨ HttpRouter.Clash r.pattern r'.pattern

theorem Conflict.symm {r r' : RouterCall E} (h : Conflict r r') : Conflict r' r :=
  h.imp (fun h => ⟨h.1.symm, h.2.symm⟩) HttpRouter.Clash.symm

theorem run_eq (t : HttpRouter E) (r : RouterCall E) :
    r.run t = HttpRouter.setSegments r.method (some r.endpoint) r.pattern t := by
  cases r <;> exact HttpRouter.setEndpoint_eq _ _ _ _

theorem supported_method (r : RouterCall E) : HttpRouter.Supported r.method := by
  cases r
  · exact .inl rfl
  · exact .inr rfl

theorem nil_not_mem_pattern (r : RouterCall E) : [] ∉ r.pattern := by
  cases r <;> exact fun h => ne_nil_of_mem_splitString h rfl

/-- The entries of `t` are those that `R` registers. -/
def Represents (t : HttpRouter E) (R : Set (RouterCall E)) : Prop :=
  HttpRouter.WellFormed t ∧ ∀ m q e,
    HttpRouter.lookup m q t = some e ↔ ∃ r ∈ R, r.method = m ∧ r.pattern = q ∧ r.endpoint = e

theorem represents_new : Represents (HttpRouter.new : HttpRouter E) ∅ :=
  ⟨HttpRouter.wellFormed_new, by simp⟩

theorem lookup_ne_none {t : HttpRouter E} {R : Set (RouterCall E)} (h : Represents t R)
    (m : HttpMethod) (q : List Bytes) :
    HttpRouter.lookup m q t ≠ none ↔ ∃ r ∈ R, r.method = m ∧ r.pattern = q := by
  rw [← Option.isSome_iff_ne_none, Option.isSome_iff_exists]
  refine ⟨fun ⟨e, he⟩ => ?_, fun ⟨r, hr, hm, hq⟩ => ⟨r.endpoint, ?_⟩⟩
  · obtain ⟨r, hr, hm, hq, _⟩ := (h.2 m q e).mp he
    exact ⟨r, hr, hm, hq⟩
  · exact (h.2 m q _).mpr ⟨r, hr, hm, hq, rfl⟩

/-- A call succeeds exactly if it has no bare colon and conflicts with no call before it. -/
theorem run_ok_iff {t : HttpRouter E} {R : Set (RouterCall E)} (h : Represents t R)
    (r : RouterCall E) :
    (r.run t).2 = .ok () ↔ [colon] ∉ r.pattern ∧ ∀ r' ∈ R, ¬ Conflict r r' := by
  rw [run_eq, HttpRouter.setSegments_ok_iff r.supported_method h.1 r.nil_not_mem_pattern]
  have hfree : HttpRouter.lookup r.method r.pattern t = none ↔
      ∀ r' ∈ R, ¬ (r.method = r'.method ∧ r.pattern = r'.pattern) := by
    rw [← not_iff_not, ← ne_eq, lookup_ne_none h]
    push Not
    exact exists_congr fun r' => and_congr_right fun _ => and_congr eq_comm eq_comm
  rw [hfree]
  refine and_congr_right fun _ => ⟨fun ⟨h₁, h₂⟩ r' hr' hc => ?_, fun hall => ⟨fun r' hr' hc => ?_,
    fun m q hq hc => ?_⟩⟩
  · rcases hc with hc | hc
    · exact h₁ r' hr' hc
    · exact h₂ r'.method r'.pattern ((lookup_ne_none h _ _).mpr ⟨r', hr', rfl, rfl⟩) hc
  · exact hall r' hr' (.inl hc)
  · obtain ⟨r', hr', _, rfl⟩ := (lookup_ne_none h m q).mp hq
    exact hall r' hr' (.inr hc)

theorem Represents.run {t t' : HttpRouter E} {R : Set (RouterCall E)} (h : Represents t R)
    {r : RouterCall E} (hr : r.run t = (t', .ok ())) : Represents t' (insert r R) := by
  have hfree : HttpRouter.lookup r.method r.pattern t = none := by
    rw [run_eq] at hr
    exact ((HttpRouter.setSegments_ok_iff r.supported_method h.1 r.nil_not_mem_pattern).mp
      (congrArg Prod.snd hr)).2.1
  rw [run_eq] at hr
  obtain ⟨hwf, hlook⟩ := HttpRouter.setSegments_ok h.1 hr
  refine ⟨hwf, fun m q e => ?_⟩
  rw [hlook]
  by_cases hself : m = r.method ∧ q = r.pattern
  · obtain ⟨rfl, rfl⟩ := hself
    rw [if_pos ⟨rfl, rfl⟩, Option.some.injEq]
    refine ⟨fun he => ⟨r, Set.mem_insert _ _, rfl, rfl, he⟩, fun ⟨r', hr', hm, hq, he⟩ => ?_⟩
    rcases Set.mem_insert_iff.mp hr' with rfl | hmem
    · exact he
    · have := (h.2 r.method r.pattern e).mpr ⟨r', hmem, hm, hq, he⟩
      simp [hfree] at this
  · rw [if_neg hself, h.2]
    refine exists_congr fun r' => and_congr_left fun ⟨hm, hq, _⟩ => ?_
    rw [Set.mem_insert_iff]
    refine ⟨.inr, fun hor => hor.resolve_left ?_⟩
    rintro rfl
    exact hself ⟨hm.symm, hq.symm⟩

/-- A row of calls succeeds exactly if no call of it, nor one made before, conflicts with another;
the calls' order is irrelevant to that. -/
theorem runAll_ok_iff {t : HttpRouter E} {R : Set (RouterCall E)} (h : Represents t R)
    (rs : List (RouterCall E)) :
    (∃ t', runAll t rs = (t', .ok ())) ↔ (∀ r ∈ rs, [colon] ∉ r.pattern ∧ ∀ r' ∈ R, ¬ Conflict r r') ∧
      rs.Pairwise fun r r' => ¬ Conflict r r' := by
  induction rs generalizing t R with
  | nil => simp [runAll]
  | cons r rs ih =>
    rw [runAll, List.forall_mem_cons, List.pairwise_cons, ← run_ok_iff h]
    rcases hrun : r.run t with ⟨t', ⟨e⟩ | ⟨⟨⟩⟩⟩
    · simp
    · simp only [ih (h.run hrun), Set.mem_insert_iff, forall_eq_or_imp, true_and]
      have hsymm : (∀ x ∈ rs, ¬ Conflict x r) ↔ ∀ x ∈ rs, ¬ Conflict r x :=
        forall₂_congr fun x _ => not_congr ⟨Conflict.symm, Conflict.symm⟩
      rw [← hsymm]
      refine ⟨fun ⟨h₁, h₂⟩ => ⟨fun x hx => ⟨(h₁ x hx).1, (h₁ x hx).2.2⟩, fun x hx => (h₁ x hx).2.1,
        h₂⟩, fun ⟨h₁, h₂, h₃⟩ => ⟨fun x hx => ⟨(h₁ x hx).1, h₂ x hx, (h₁ x hx).2⟩, h₃⟩⟩

theorem Represents.runAll {t t' : HttpRouter E} {R : Set (RouterCall E)} (h : Represents t R)
    {rs : List (RouterCall E)} (hrun : RouterCall.runAll t rs = (t', .ok ())) :
    Represents t' (R ∪ {r | r ∈ rs}) := by
  induction rs generalizing t R with
  | nil =>
    obtain rfl : t = t' := (Prod.mk.inj hrun).1
    simpa using h
  | cons r rs ih =>
    rw [RouterCall.runAll] at hrun
    rcases hr : r.run t with ⟨t₁, ⟨e⟩ | ⟨⟨⟩⟩⟩
    · simp [hr] at hrun
    · simp only [hr] at hrun
      have := ih (h.run hr) hrun
      convert this using 1
      ext x
      simp only [Set.mem_union, Set.mem_ofPred_eq, List.mem_cons, Set.mem_insert_iff]
      tauto

end RouterCall

/-! ## The specification of matching -/

namespace Routing

variable {E : Type}

def LiteralAt (r : RouterCall E) (i : Nat) (s : Bytes) : Prop :=
  r.pattern[i]? = some s ∧ ¬ IsParam s

def ParamAt (r : RouterCall E) (i : Nat) : Prop :=
  ∃ name, r.pattern[i]? = some (colon :: name)

/-- What is kept of `R` after `i` segments of the path: those with the literal in that place, or if
there are none those with a parameter there. -/
def kept (R : Set (RouterCall E)) (path : List Bytes) : Nat → Set (RouterCall E)
  | 0 => R
  | i + 1 => {r ∈ kept R path i | ∀ s, path[i]? = some s →
      (LiteralAt r i s ∨ ((∀ r' ∈ kept R path i, ¬ LiteralAt r' i s) ∧ ParamAt r i))}

/-- `r` is the pattern reached by the path, and has the method. -/
def Selects (R : Set (RouterCall E)) (method : HttpMethod) (path : List Bytes)
    (r : RouterCall E) : Prop :=
  r ∈ kept R path path.length ∧ r.pattern.length = path.length ∧ r.method = method

/-- The binding of `name` in a pattern along a path; a name used twice stands for its last place. -/
def binding (pattern path : List Bytes) (name : Bytes) : Option Bytes :=
  ((pattern.zip path).reverse.find? fun p => p.1 == colon :: name).map Prod.snd

def collect (params : List (Bytes × Bytes)) (p : Bytes × Bytes) : List (Bytes × Bytes) :=
  if IsParam p.1 then assign (· == ·) params p.1.tail p.2 else params

theorem find_collect (ps : List (Bytes × Bytes)) (name : Bytes) :
    find (· == ·) (ps.foldl collect []) name =
      (ps.reverse.find? fun p => p.1 == colon :: name).map Prod.snd := by
  induction ps using List.reverseRecOn with
  | nil => rfl
  | append_singleton ps p ih =>
    rw [List.foldl_append, List.foldl_cons, List.foldl_nil, List.reverse_append,
      List.reverse_singleton, List.singleton_append, List.find?_cons, collect]
    by_cases hp : IsParam p.1
    · have hkey : (p.1.tail == name) = (p.1 == colon :: name) := by
        rw [Bool.eq_iff_iff, beq_iff_eq, beq_iff_eq]
        refine ⟨fun h => by rw [HttpRouter.param_eq _ hp, h], fun h => by rw [h, List.tail_cons]⟩
      rw [if_pos hp, find_assign isEquality_beq, hkey, ih]
      cases p.1 == colon :: name <;> rfl
    · have hkey : (p.1 == colon :: name) = false := by
        rw [Bool.eq_false_iff, ne_eq, beq_iff_eq]
        exact fun h => hp (by rw [h]; rfl)
      rw [if_neg hp, hkey, ih]

/-- From the node that the pattern part `q` leads to, with the path part `taken` behind and `ahead` to
come, matching answers what is selected from the patterns that continue `q`. -/
theorem matchSegments_spec {R : Set (RouterCall E)} {method : HttpMethod}
    (hm : HttpRouter.Supported method) (taken q : List Bytes) {path ahead : List Bytes}
    {c : HttpRouter E} (hpath : path = taken ++ ahead) (hlen : q.length = taken.length)
    (hwf : HttpRouter.WellFormed c)
    (hlook : ∀ m p e, HttpRouter.lookup m p c = some e ↔
      ∃ r ∈ R, r.method = m ∧ r.pattern = q ++ p ∧ r.endpoint = e)
    (hkept : ∀ r, r ∈ kept R path taken.length ↔ r ∈ R ∧ q <+: r.pattern) :
    ∃ answer params, HttpRouter.matchSegments method ahead c ((q.zip taken).foldl collect []) =
        .ok (answer, params) ∧
      (∀ e, answer = some e ↔ ∃ r, Selects R method path r ∧ r.endpoint = e) ∧
      ∀ r, Selects R method path r → ∀ name,
        find (· == ·) params name = binding r.pattern path name := by
  induction ahead generalizing taken q c with
  | nil =>
    rw [List.append_nil] at hpath
    subst hpath
    -- only the pattern `q` itself is long enough
    have hsel : ∀ r, Selects R method path r ↔ r ∈ R ∧ r.pattern = q ∧ r.method = method := by
      intro r
      rw [Selects, hkept]
      refine ⟨fun ⟨⟨hr, hq⟩, hl, hme⟩ => ⟨hr, ?_, hme⟩, fun ⟨hr, hq, hme⟩ => ⟨⟨hr, ?_⟩, ?_, hme⟩⟩
      · exact (hq.eq_of_length (by omega)).symm
      · rw [hq]
      · rw [hq, hlen]
    refine ⟨c.endpointAt method, (q.zip path).foldl collect [], ?_, fun e => ?_,
      fun r hr name => ?_⟩
    · rcases hm with rfl | rfl <;> rfl
    · have := hlook method [] e
      rw [HttpRouter.lookup, List.append_nil] at this
      rw [this]
      simp only [hsel]
      refine exists_congr fun r => ?_
      tauto
    · rw [find_collect, ((hsel r).mp hr).2.1]
      rfl
  | cons s ahead ih =>
    have hat : path[taken.length]? = some s := by simp [hpath]
    have hpath' : path = (taken ++ [s]) ++ ahead := by rw [hpath, List.append_assoc]; rfl
    have hget : ∀ {r : RouterCall E} {x : Bytes}, q <+: r.pattern →
        (r.pattern[taken.length]? = some x ↔ (q ++ [x]) <+: r.pattern) := by
      rintro r x ⟨p, hp⟩
      rw [← hp, ← hlen, List.getElem?_append_right (Nat.le_refl _), Nat.sub_self,
        List.prefix_append_right_inj]
      cases p with
      | nil => simp
      | cons y p => simp [eq_comm]
    have hcont : ∀ {r : RouterCall E} {x : Bytes}, (q ++ [x]) <+: r.pattern → q <+: r.pattern :=
      fun h => (List.prefix_append _ _).trans h
    -- the next round starts from the child under the pattern segment `x`
    have hnext : ∀ {x : Bytes} {c' : HttpRouter E}, c.child x = some c' →
        (∀ r, r ∈ kept R path (taken.length + 1) ↔ r ∈ R ∧ (q ++ [x]) <+: r.pattern) →
        ∃ answer params, HttpRouter.matchSegments method ahead c'
            (((q ++ [x]).zip (taken ++ [s])).foldl collect []) = .ok (answer, params) ∧
          (∀ e, answer = some e ↔ ∃ r, Selects R method path r ∧ r.endpoint = e) ∧
          ∀ r, Selects R method path r → ∀ name,
            find (· == ·) params name = binding r.pattern path name := by
      intro x c' hc' hk
      refine ih (taken ++ [s]) (q ++ [x]) hpath' (by simp [hlen]) (hwf.child hc') (fun m p e => ?_)
        (by simpa using hk)
      have := hlook m (x :: p) e
      rw [HttpRouter.lookup, hc', Option.bind_some] at this
      rw [this, List.append_assoc]
      rfl
    have hzip : ∀ x : Bytes, ((q ++ [x]).zip (taken ++ [s])).foldl collect [] =
        collect ((q.zip taken).foldl collect []) (x, s) := by
      intro x
      rw [List.zip_append hlen, List.foldl_append]
      rfl
    -- a pattern kept so far with `x` next comes from the child under `x`
    have hchild : ∀ {r : RouterCall E} {x : Bytes}, r ∈ R → (q ++ [x]) <+: r.pattern →
        ∃ c', c.child x = some c' := by
      rintro r x hr ⟨p, hp⟩
      have := (hlook r.method (x :: p) r.endpoint).mpr
        ⟨r, hr, rfl, by rw [← hp, List.append_assoc]; rfl, rfl⟩
      rw [HttpRouter.lookup] at this
      obtain ⟨c', hc', _⟩ := Option.bind_eq_some_iff.mp this
      exact ⟨c', hc'⟩
    have hmem : ∀ r, r ∈ kept R path (taken.length + 1) ↔ r ∈ R ∧ q <+: r.pattern ∧
        (LiteralAt r taken.length s ∨
          ((∀ r' ∈ R, q <+: r'.pattern → ¬ LiteralAt r' taken.length s) ∧
            ParamAt r taken.length)) := by
      intro r
      simp only [kept, Set.mem_ofPred_eq, hkept, hat, Option.some.injEq, forall_eq', and_assoc,
        and_imp]
    rw [HttpRouter.matchSegments]
    cases hroute : find (· == ·) c.routes s with
    | some c' =>
      have hs : ¬ IsParam s := fun hs => by simp [hwf.literal hs] at hroute
      have hc' : c.child s = some c' := by rw [HttpRouter.child, if_neg hs, hroute]
      have hlit : ∃ r ∈ R, q <+: r.pattern ∧ LiteralAt r taken.length s := by
        obtain ⟨m, p, e, hp⟩ := hwf.live hc'
        obtain ⟨r, hr, _, hpat, _⟩ := (hlook m (s :: p) e).mp (by
          rw [HttpRouter.lookup, hc', Option.bind_some, hp])
        have hpre : (q ++ [s]) <+: r.pattern := ⟨p, by rw [hpat, List.append_assoc]; rfl⟩
        exact ⟨r, hr, hcont hpre, (hget (hcont hpre)).mpr hpre, hs⟩
      have := hnext hc' fun r => by
        rw [hmem]
        refine ⟨fun ⟨hr, hq, hor⟩ => ⟨hr, ?_⟩, fun ⟨hr, hq⟩ => ⟨hr, hcont hq,
          .inl ⟨(hget (hcont hq)).mpr hq, hs⟩⟩⟩
        rcases hor with hl | ⟨hno, _⟩
        · exact (hget hq).mp hl.1
        · obtain ⟨r', hr', hq', hl'⟩ := hlit
          exact absurd hl' (hno r' hr' hq')
      rwa [hzip, collect, if_neg hs] at this
    | none =>
      have hno : ∀ r' ∈ R, q <+: r'.pattern → ¬ LiteralAt r' taken.length s := by
        rintro r' hr' hq' ⟨hl, hs⟩
        obtain ⟨c', hc'⟩ := hchild hr' ((hget hq').mp hl)
        rw [HttpRouter.child, if_neg hs, hroute] at hc'
        exact absurd hc' (Option.some_ne_none c').symm
      simp only
      cases hr : c.paramRoute with
      | some c' =>
        have hne : c.pathParam ≠ [] := fun hn => by simp [hwf.param.mp hn] at hr
        have hparam : IsParam (colon :: c.pathParam) := rfl
        have hc' : c.child (colon :: c.pathParam) = some c' := by
          rw [HttpRouter.child, if_pos hparam, List.tail_cons, if_pos rfl, hr]
        have := hnext hc' fun r => by
          rw [hmem]
          refine ⟨fun ⟨hr, hq, hor⟩ => ⟨hr, ?_⟩, fun ⟨hr, hq⟩ => ⟨hr, hcont hq,
            .inr ⟨hno, c.pathParam, (hget (hcont hq)).mpr hq⟩⟩⟩
          rcases hor with hl | ⟨_, name, hname⟩
          · exact absurd hl (hno r hr hq)
          · have hpre := (hget hq).mp hname
            obtain ⟨c'', hc''⟩ := hchild hr hpre
            rw [HttpRouter.child, if_pos (show IsParam (colon :: name) from rfl), List.tail_cons] at hc''
            by_cases hn : c.pathParam = name
            · rwa [hn]
            · rw [if_neg hn] at hc''
              exact absurd hc'' (Option.some_ne_none c'').symm
        rw [hzip, collect, if_pos hparam, List.tail_cons] at this
        rw [if_pos hne]
        exact this
      | none =>
        -- no pattern goes on from here
        have hempty : ∀ r, r ∉ kept R path (taken.length + 1) := by
          intro r hr'
          rcases (hmem r).mp hr' with ⟨hrR, hq, hl | ⟨_, name, hname⟩⟩
          · exact hno r hrR hq hl
          · obtain ⟨c', hc'⟩ := hchild hrR ((hget hq).mp hname)
            rw [HttpRouter.child, if_pos (show IsParam (colon :: name) from rfl), hr, ite_self] at hc'
            exact absurd hc' (Option.some_ne_none c').symm
        have hmono : ∀ j r, r ∈ kept R path (taken.length + 1 + j) →
            r ∈ kept R path (taken.length + 1) := by
          intro j
          induction j with
          | zero => exact fun r h => h
          | succ j ihj => exact fun r h => ihj r h.1
        have hnone : ∀ r, ¬ Selects R method path r := by
          rintro r ⟨hk, _, _⟩
          rw [hpath', List.length_append, List.length_append] at hk
          exact hempty r (hmono ahead.length r (by rw [← hpath'] at hk; exact hk))
        refine ⟨none, (q.zip taken).foldl collect [], ?_, fun e => ?_,
          fun r hr => absurd hr (hnone r)⟩
        · rw [if_neg (not_not.mpr (hwf.param.mpr hr))]
        · simp [hnone]

/-- A router built by calls none of which throws answers with the endpoint of the selected pattern and
with its parameters, and the same calls in another order build one that answers the same. -/
theorem matchPath_spec (calls : List (RouterCall E)) (t : HttpRouter E)
    (hbuilt : RouterCall.runAll HttpRouter.new calls = (t, .ok ())) :
    (∀ method, HttpRouter.Supported method → ∀ path, ∃ answer params,
      t.matchPath method path [] = .ok (answer, params) ∧
      (∀ e, answer = some e ↔
        ∃ r, Selects {r | r ∈ calls} method (segments path) r ∧ r.endpoint = e) ∧
      ∀ r, Selects {r | r ∈ calls} method (segments path) r → ∀ name,
        find (· == ·) params name = binding r.pattern (segments path) name) ∧
    ∀ calls' : List (RouterCall E), calls'.Perm calls →
      ∃ t', RouterCall.runAll HttpRouter.new calls' = (t', .ok ()) ∧
        ∀ method, HttpRouter.Supported method → ∀ path,
          t'.matchPath method path [] = t.matchPath method path [] := by
  have hrep := RouterCall.represents_new.runAll hbuilt
  rw [Set.empty_union] at hrep
  refine ⟨fun method hm path => ?_, fun calls' hperm => ?_⟩
  · rw [HttpRouter.matchPath_eq]
    refine matchSegments_spec hm [] [] rfl rfl hrep.1 hrep.2 fun r => ?_
    simp [kept]
  · have hok := (RouterCall.runAll_ok_iff RouterCall.represents_new calls).mp ⟨t, hbuilt⟩
    obtain ⟨t', hbuilt'⟩ := (RouterCall.runAll_ok_iff RouterCall.represents_new calls').mpr
      ⟨fun r hr => hok.1 r (hperm.mem_iff.mp hr),
        (hperm.pairwise_iff fun h hc => h hc.symm).mpr hok.2⟩
    have hrep' := RouterCall.represents_new.runAll hbuilt'
    rw [Set.empty_union] at hrep'
    refine ⟨t', hbuilt', fun method hm path => ?_⟩
    rw [HttpRouter.matchPath_eq, HttpRouter.matchPath_eq]
    refine HttpRouter.matchSegments_congr hm hrep'.1 hrep.1 (fun m q => Option.ext fun e => ?_) []
    rw [hrep'.2, hrep.2]
    simp only [Set.mem_ofPred_eq, hperm.mem_iff]

theorem matchPath_spec_users :
    let calls : List (RouterCall Nat) :=
      [.get (ascii "/users/:id") 1, .post (ascii "/users//new/") 2]
    ∃ answer params, (RouterCall.runAll HttpRouter.new calls).1.matchPath .GET
        (ascii "/users/7") [] = .ok (answer, params) ∧
      (∀ e, answer = some e ↔
        ∃ r, Selects {r | r ∈ calls} .GET (segments (ascii "/users/7")) r ∧ r.endpoint = e) ∧
      ∀ r, Selects {r | r ∈ calls} .GET (segments (ascii "/users/7")) r → ∀ name,
        find (· == ·) params name = binding r.pattern (segments (ascii "/users/7")) name := by
  intro calls
  have hbuilt : RouterCall.runAll HttpRouter.new calls =
      ((RouterCall.runAll HttpRouter.new calls).1, .ok ()) := by
    refine Prod.ext rfl ?_
    simp only [calls, RouterCall.runAll, RouterCall.run_eq]
    rfl
  exact (matchPath_spec calls _ hbuilt).1 .GET (.inl rfl) (ascii "/users/7")

end Routing

end CppEvent
