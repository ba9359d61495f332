import CppEvent.Http.Routing

/-!
# What a failed registration leaves behind

Routers built by any calls of `get` and `post`, those that throw included. A call that throws may have
made nodes and named parameters on its way down. Which of that can be noticed is decided by the router
and the pattern (`Names`, `Shadows`); all else that a call leaves behind is as good as absent
(`Alike`, `Blank`).
-/

namespace CppEvent

open AssocMap

namespace HttpRouter

variable {E : Type} {t t' c : HttpRouter E} {s : Bytes} {method : HttpMethod} {e : Option E}

/-! ## One step down -/

/-- Why a node refuses to go on with a segment. -/
def refuses (t : HttpRouter E) (s : Bytes) : Option Exn :=
  if IsParam s ∧ 1 < s.length then
    if t.pathParam ≠ [] ∧ t.pathParam ≠ s.tail then
      some (.runtimeError "http_router set_endpoint: path parameter name clash")
    else none
  else if IsParam s then
    some (.runtimeError "http_router set_endpoint: invalid path parameter name")
  else none

/-- The node with a subtrie put under a segment. -/
def put (t : HttpRouter E) (s : Bytes) (c : HttpRouter E) : HttpRouter E :=
  if IsParam s then { t with pathParam := s.tail, paramRoute := some c }
  else { t with routes := assign (· == ·) t.routes s c }

/-- The representation invariant of routers whose registrations may have failed: a parameter has a name
exactly if it has a subtrie, and literals do not look like parameters. -/
inductive Consistent : HttpRouter E → Prop where
  | intro (t : HttpRouter E) (hparam : t.pathParam = [] ↔ t.paramRoute = none)
      (hliteral : ∀ s, IsParam s → find (· == ·) t.routes s = none)
      (hchild : ∀ s c, t.child s = some c → Consistent c) : Consistent t

theorem Consistent.param (h : Consistent t) : t.pathParam = [] ↔ t.paramRoute = none := by
  cases h; assumption

theorem Consistent.literal (h : Consistent t) (hs : IsParam s) :
    find (· == ·) t.routes s = none := by
  cases h with | intro _ _ hliteral => exact hliteral s hs

theorem Consistent.child (h : Consistent t) (hc : t.child s = some c) : Consistent c := by
  cases h with | intro _ _ _ hchild => exact hchild s c hc

theorem consistent_new : Consistent (new : HttpRouter E) :=
  .intro _ (by simp [new]) (by simp [new, find]) (by simp)

theorem Consistent.getD_child (h : Consistent t) (s : Bytes) : Consistent ((t.child s).getD new) := by
  cases hc : t.child s with
  | none => exact consistent_new
  | some c => exact h.child hc

theorem refuses_eq_none (h : t.refuses s = none) (hs : IsParam s) :
    1 < s.length ∧ (t.pathParam = [] ∨ t.pathParam = s.tail) := by
  by_cases hlen : 1 < s.length
  · refine ⟨hlen, ?_⟩
    rw [refuses, if_pos ⟨hs, hlen⟩] at h
    by_cases hclash : t.pathParam ≠ [] ∧ t.pathParam ≠ s.tail
    · rw [if_pos hclash] at h
      cases h
    · tauto
  · rw [refuses, if_neg (not_and_of_not_right _ hlen), if_pos hs] at h
    cases h

theorem tail_ne_nil (h : 1 < s.length) : s.tail ≠ [] := by
  rw [← List.length_pos_iff, List.length_tail]
  omega

/-- A registration refuses the next segment, or goes on in the subtrie under it and puts that back. -/
theorem setSegments_cons (h : Consistent t) (segs : List Bytes) :
    setSegments method e (s :: segs) t = match t.refuses s with
      | some err => (t, .error err)
      | none => (t.put s (setSegments method e segs ((t.child s).getD new)).1,
          (setSegments method e segs ((t.child s).getD new)).2) := by
  rw [setSegments, refuses]
  by_cases hs : IsParam s ∧ 1 < s.length
  · rw [if_pos hs, if_pos hs]
    by_cases hclash : t.pathParam ≠ [] ∧ t.pathParam ≠ s.tail
    · rw [if_pos hclash, if_pos hclash]
    · have hnext : t.paramRoute.getD new = (t.child s).getD new := by
        rw [child, if_pos hs.1]
        by_cases hname : t.pathParam = s.tail
        · rw [if_pos hname]
        · rw [if_neg hname, h.param.mp (by tauto)]
      rw [if_neg hclash, if_neg hclash, hnext, put, if_pos hs.1]
  · rw [if_neg hs, if_neg hs]
    by_cases hs' : IsParam s
    · rw [if_pos hs', if_pos hs']
    · rw [if_neg hs', if_neg hs', put, if_neg hs', child, if_neg hs']

theorem child_put (h : Consistent t) (hok : t.refuses s = none) (s₁ : Bytes) :
    (t.put s c).child s₁ = if s₁ = s then some c else t.child s₁ := by
  by_cases hs : IsParam s
  · obtain ⟨-, hname⟩ := refuses_eq_none hok hs
    rw [put, if_pos hs]
    by_cases heq : s₁ = s
    · rw [if_pos heq, heq, child, if_pos hs]
      exact if_pos rfl
    · rw [if_neg heq, child, child]
      by_cases hs₁ : IsParam s₁
      · have htail : s.tail ≠ s₁.tail := fun ht =>
          heq (by rw [param_eq s₁ hs₁, param_eq s hs, ht])
        rw [if_pos hs₁, if_pos hs₁, if_neg htail]
        rcases hname with hnil | hname
        · rw [h.param.mp hnil, ite_self]
        · rw [hname, if_neg htail]
      · rw [if_neg hs₁, if_neg hs₁]
  · rw [put, if_neg hs, child, child]
    by_cases hs₁ : IsParam s₁
    · rw [if_pos hs₁, if_pos hs₁, if_neg (fun heq : s₁ = s => hs (heq ▸ hs₁))]
    · rw [if_neg hs₁, if_neg hs₁, find_assign isEquality_beq]
      by_cases heq : s₁ = s
      · rw [if_pos heq, if_pos (beq_iff_eq.mpr heq.symm)]
      · rw [if_neg heq, if_neg (fun hb => heq (beq_iff_eq.mp hb).symm)]

theorem consistent_put (h : Consistent t) (hok : t.refuses s = none) (hc : Consistent c) :
    Consistent (t.put s c) := by
  refine .intro _ ?_ (fun s₁ hs₁ => ?_) (fun s₁ c₁ h₁ => ?_)
  · by_cases hs : IsParam s
    · rw [put, if_pos hs]
      simpa using tail_ne_nil (refuses_eq_none hok hs).1
    · rw [put, if_neg hs]
      exact h.param
  · by_cases hs : IsParam s
    · rw [put, if_pos hs]
      exact h.literal hs₁
    · rw [put, if_neg hs, find_assign isEquality_beq, if_neg, h.literal hs₁]
      exact fun hb => hs (beq_iff_eq.mp hb ▸ hs₁)
  · rw [child_put h hok] at h₁
    by_cases heq : s₁ = s
    · rw [if_pos heq, Option.some.injEq] at h₁
      exact h₁ ▸ hc
    · rw [if_neg heq] at h₁
      exact h.child h₁

/-- The node at which a pattern ends, after a registration: only an endpoint may have changed. -/
theorem setSegments_nil_keeps (method : HttpMethod) (e : Option E) (t : HttpRouter E) :
    (setSegments method e [] t).1.pathParam = t.pathParam ∧
      (setSegments method e [] t).1.routes = t.routes ∧
      (setSegments method e [] t).1.paramRoute = t.paramRoute := by
  cases method with
  | GET => cases hg : t.getEndpoint <;> simp [setSegments, getEndpointVar, setEndpointVar, hg]
  | POST => cases hg : t.postEndpoint <;> simp [setSegments, getEndpointVar, setEndpointVar, hg]
  | HEAD => simp [setSegments, getEndpointVar]
  | OPTIONS => simp [setSegments, getEndpointVar]

theorem child_congr (hname : t'.pathParam = t.pathParam) (hroutes : t'.routes = t.routes)
    (hparam : t'.paramRoute = t.paramRoute) (s : Bytes) : t'.child s = t.child s := by
  rw [child, child, hname, hroutes, hparam]

theorem consistent_set (segs : List Bytes) (h : Consistent t) :
    Consistent (setSegments method e segs t).1 := by
  induction segs generalizing t with
  | nil =>
    obtain ⟨hname, hroutes, hparam⟩ := setSegments_nil_keeps method e t
    refine .intro _ ?_ (fun s hs => ?_) (fun s c hc => ?_)
    · rw [hname, hparam]
      exact h.param
    · rw [hroutes]
      exact h.literal hs
    · rw [child_congr hname hroutes hparam] at hc
      exact h.child hc
  | cons s segs ih =>
    rw [setSegments_cons h]
    cases hr : t.refuses s with
    | some err => exact h
    | none => exact consistent_put h hr (ih (h.getD_child s))

/-! ## What registrations can tell apart -/

/-- What a registration finds at the end of a pattern: the parameter named there and the endpoints. A
subtrie that is not there is as good as a new one. -/
def view : List Bytes → HttpRouter E → Bytes × Option E × Option E
  | [], t => (t.pathParam, t.getEndpoint, t.postEndpoint)
  | s :: p, t => view p ((t.child s).getD new)

/-- No registration can tell the routers apart. -/
def Alike (t t' : HttpRouter E) : Prop := ∀ p, view p t = view p t'

theorem Alike.getD_child (h : Alike t t') (s : Bytes) :
    Alike ((t.child s).getD new) ((t'.child s).getD new) := fun p => h (s :: p)

theorem Alike.refuses_eq (h : Alike t t') (s : Bytes) : t.refuses s = t'.refuses s := by
  have hname : t.pathParam = t'.pathParam := congrArg Prod.fst (h [])
  rw [refuses, refuses, hname]

theorem view_put (h : Consistent t) (hok : t.refuses s = none) (p : List Bytes) :
    view p (t.put s c) = match p with
      | [] => (if IsParam s then s.tail else t.pathParam, t.getEndpoint, t.postEndpoint)
      | s₁ :: q => if s₁ = s then view q c else view (s₁ :: q) t := by
  cases p with
  | nil =>
    rw [view, put]
    by_cases hs : IsParam s
    · simp only [if_pos hs]
    · simp only [if_neg hs]
  | cons s₁ q =>
    rw [view, child_put h hok]
    by_cases heq : s₁ = s
    · simp only [if_pos heq, Option.getD_some]
    · simp only [if_neg heq, view]

/-- Registrations have the same outcome on routers that are alike, and leave them alike. -/
theorem Alike.set (method : HttpMethod) (e : Option E) (segs : List Bytes) (h : Alike t t')
    (hc : Consistent t) (hc' : Consistent t') :
    (setSegments method e segs t).2 = (setSegments method e segs t').2 ∧
      Alike (setSegments method e segs t).1 (setSegments method e segs t').1 := by
  induction segs generalizing t t' with
  | nil =>
    obtain ⟨hname, hget, hpost⟩ : t.pathParam = t'.pathParam ∧ t.getEndpoint = t'.getEndpoint ∧
        t.postEndpoint = t'.postEndpoint := by
      have := h []
      simpa only [view, Prod.mk.injEq] using this
    have hend : ∀ get post, Alike { t with getEndpoint := get, postEndpoint := post }
        { t' with getEndpoint := get, postEndpoint := post } := by
      intro get post p
      cases p with
      | nil => simp only [view, hname]
      | cons s p => exact h (s :: p)
    cases method with
    | GET =>
      cases hg : t.getEndpoint with
      | some old =>
        rw [hget] at hg
        simp only [setSegments, getEndpointVar, hget, hg]
        exact ⟨trivial, h⟩
      | none =>
        rw [hget] at hg
        simp only [setSegments, getEndpointVar, setEndpointVar, hget, hg]
        refine ⟨trivial, ?_⟩
        rw [hpost]
        exact hend e t'.postEndpoint
    | POST =>
      cases hg : t.postEndpoint with
      | some old =>
        rw [hpost] at hg
        simp only [setSegments, getEndpointVar, hpost, hg]
        exact ⟨trivial, h⟩
      | none =>
        rw [hpost] at hg
        simp only [setSegments, getEndpointVar, setEndpointVar, hpost, hg]
        refine ⟨trivial, ?_⟩
        rw [hget]
        exact hend t'.getEndpoint e
    | HEAD => exact ⟨rfl, h⟩
    | OPTIONS => exact ⟨rfl, h⟩
  | cons s segs ih =>
    rw [setSegments_cons hc, setSegments_cons hc', ← h.refuses_eq s]
    cases hr : t.refuses s with
    | some err => exact ⟨rfl, h⟩
    | none =>
      have hr' : t'.refuses s = none := by rw [← h.refuses_eq s, hr]
      obtain ⟨hres, halike⟩ := ih (h.getD_child s) (hc.getD_child s) (hc'.getD_child s)
      refine ⟨hres, fun p => ?_⟩
      rw [view_put hc hr, view_put hc' hr']
      have hnode := h []
      simp only [view, Prod.mk.injEq] at hnode
      cases p with
      | nil => simp only [hnode]
      | cons s₁ q => simp only [halike q, h (s₁ :: q)]

/-! ## Traces -/

/-- The call gives a parameter to a node that has none. -/
def Names : List Bytes → HttpRouter E → Prop
  | [], _ => False
  | s :: segs, t => t.refuses s = none ∧
      (IsParam s ∧ t.pathParam = [] ∨ Names segs ((t.child s).getD new))

/-- The call makes a literal beside a parameter. -/
def Shadows : List Bytes → HttpRouter E → Prop
  | [], _ => False
  | s :: segs, t => t.refuses s = none ∧
      match t.child s with
      | some c => Shadows segs c
      | none => ¬ IsParam s ∧ t.pathParam ≠ []

/-- Nothing is registered and no parameter is named. -/
def Blank (t : HttpRouter E) : Prop :=
  Alike new t ∧ ∀ method, Supported method → ∀ segs params,
    matchSegments method segs t params = .ok (none, params)

theorem blank_new : Blank (new : HttpRouter E) := by
  refine ⟨fun _ => rfl, fun method hm segs params => ?_⟩
  cases segs with
  | nil => rcases hm with rfl | rfl <;> rfl
  | cons s segs => rfl

/-- A call that throws on a new router without naming a parameter leaves a blank one. -/
theorem blank_of_error (hm : Supported method) {segs : List Bytes} {err : Exn}
    (hset : setSegments method e segs new = (t, .error err))
    (hnames : ¬ Names segs (new : HttpRouter E)) : Blank t := by
  induction segs generalizing t with
  | nil =>
    rcases hm with rfl | rfl <;> cases hset
  | cons s segs ih =>
    rw [setSegments_cons consistent_new] at hset
    cases hr : (new : HttpRouter E).refuses s with
    | some err' =>
      rw [hr] at hset
      cases hset
      exact blank_new
    | none =>
      rw [hr, child_new] at hset
      simp only [Option.getD_none, Prod.mk.injEq] at hset
      obtain ⟨rfl, hres⟩ := hset
      rw [Names, child_new, not_and] at hnames
      have hnames := hnames hr
      have hs : ¬ IsParam s := fun hs => hnames (.inl ⟨hs, rfl⟩)
      obtain ⟨halike, hmatch⟩ := ih (Prod.ext rfl hres) fun h => hnames (.inr h)
      refine ⟨fun p => ?_, fun method hm segs' params => ?_⟩
      · rw [view_put consistent_new hr]
        cases p with
        | nil => simp only [view, if_neg hs]
        | cons s₁ q =>
          by_cases heq : s₁ = s
          · simp only [if_pos heq, view, child_new, Option.getD_none]
            exact halike q
          · simp only [if_neg heq]
      · cases segs' with
        | nil =>
          rw [put, if_neg hs]
          rcases hm with rfl | rfl <;> rfl
        | cons s₁ segs' =>
          rw [put, if_neg hs, matchSegments, find_assign isEquality_beq]
          by_cases heq : s = s₁
          · rw [if_pos (beq_iff_eq.mpr heq)]
            exact hmatch method hm segs' params
          · rw [if_neg (fun hb => heq (beq_iff_eq.mp hb))]
            rfl

theorem setSegments_nil_error {err : Exn}
    (hset : setSegments method e [] t = (t', .error err)) : t' = t := by
  cases method with
  | GET =>
    cases hg : t.getEndpoint <;> simp [setSegments, getEndpointVar, setEndpointVar, hg] at hset
    exact hset.1.symm
  | POST =>
    cases hg : t.postEndpoint <;> simp [setSegments, getEndpointVar, setEndpointVar, hg] at hset
    exact hset.1.symm
  | HEAD => exact (Prod.mk.inj hset).1.symm
  | OPTIONS => exact (Prod.mk.inj hset).1.symm

/-- A call that throws without naming a parameter or shadowing one leaves a router that matches as
before and that no registration can tell from the old one. -/
theorem unnoticed_of_error (hm : Supported method) {segs : List Bytes} {err : Exn}
    (hc : Consistent t) (hset : setSegments method e segs t = (t', .error err))
    (hnames : ¬ Names segs t) (hshadows : ¬ Shadows segs t) :
    Alike t t' ∧ ∀ method, Supported method → ∀ segs' params,
      matchSegments method segs' t' params = matchSegments method segs' t params := by
  induction segs generalizing t t' with
  | nil =>
    rw [setSegments_nil_error hset]
    exact ⟨fun _ => rfl, fun _ _ _ _ => rfl⟩
  | cons s segs ih =>
    rw [setSegments_cons hc] at hset
    cases hr : t.refuses s with
    | some err' =>
      rw [hr] at hset
      cases hset
      exact ⟨fun _ => rfl, fun _ _ _ _ => rfl⟩
    | none =>
      rw [hr] at hset
      obtain ⟨rfl, hres⟩ := Prod.mk.inj hset
      rw [Names, not_and] at hnames
      rw [Shadows, not_and] at hshadows
      obtain ⟨hname, hnames⟩ := not_or.mp (hnames hr)
      have hshadows := hshadows hr
      -- a parameter the call goes through is the one that is there
      have htail : IsParam s → t.pathParam = s.tail := fun hs =>
        (refuses_eq_none hr hs).2.resolve_left fun hnil => hname ⟨hs, hnil⟩
      have hnode : (if IsParam s then s.tail else t.pathParam) = t.pathParam := by
        by_cases hs : IsParam s
        · rw [if_pos hs, htail hs]
        · rw [if_neg hs]
      obtain ⟨halike, hmatch⟩ : Alike ((t.child s).getD new)
            (setSegments method e segs ((t.child s).getD new)).1 ∧
          ∀ method', Supported method' → ∀ x xs params,
            matchSegments method' (x :: xs)
              (t.put s (setSegments method e segs ((t.child s).getD new)).1) params =
            matchSegments method' (x :: xs) t params := by
        cases hchild : t.child s with
        | some c =>
          rw [hchild] at hnames hshadows hres
          obtain ⟨halike, hmatch⟩ := ih (hc.child hchild) (Prod.ext rfl hres) hnames hshadows
          refine ⟨halike, fun method' hm' x xs params => ?_⟩
          by_cases hs : IsParam s
          · rw [child, if_pos hs, if_pos (htail hs)] at hchild
            rw [put, if_pos hs, matchSegments, matchSegments, ← htail hs, hchild]
            simp only [Option.getD_some, hmatch method' hm']
          · rw [child, if_neg hs] at hchild
            rw [put, if_neg hs, matchSegments, matchSegments, find_assign isEquality_beq]
            by_cases heq : s = x
            · rw [← heq, hchild, if_pos (beq_iff_eq.mpr rfl)]
              exact hmatch method' hm' xs params
            · rw [if_neg (fun hb => heq (beq_iff_eq.mp hb))]
        | none =>
          rw [hchild] at hnames hshadows hres
          have hs : ¬ IsParam s := by
            intro hs
            rw [child, if_pos hs, if_pos (htail hs), ← hc.param] at hchild
            exact hname ⟨hs, hchild⟩
          have hnil : t.pathParam = [] := by
            by_contra hne
            exact hshadows ⟨hs, hne⟩
          obtain ⟨halike, hmatch⟩ := blank_of_error hm (Prod.ext rfl hres) hnames
          refine ⟨halike, fun method' hm' x xs params => ?_⟩
          rw [child, if_neg hs] at hchild
          rw [put, if_neg hs, matchSegments, matchSegments, find_assign isEquality_beq]
          by_cases heq : s = x
          · rw [← heq, hchild, if_pos (beq_iff_eq.mpr rfl), if_neg (not_not.mpr hnil)]
            exact hmatch method' hm' xs params
          · rw [if_neg (fun hb => heq (beq_iff_eq.mp hb))]
      refine ⟨fun p => ?_, fun method' hm' segs' params => ?_⟩
      · rw [view_put hc hr]
        cases p with
        | nil => simp only [view, hnode]
        | cons s₁ q =>
          by_cases heq : s₁ = s
          · simp only [view, heq]
            exact halike q
          · simp only [if_neg heq]
      · cases segs' with
        | nil =>
          rw [put]
          rcases hm' with rfl | rfl <;> split <;> rfl
        | cons x xs => exact hmatch method' hm' x xs params

/-! ## What is noticed -/

def IsSegment (s : Bytes) : Prop := s ≠ [] ∧ slash ∉ s

theorem exists_path {q : List Bytes} (h : ∀ s ∈ q, IsSegment s) : ∃ path, segments path = q := by
  suffices hgen : segments (q.flatMap (slash :: ·)) = q from ⟨_, hgen⟩
  have hslash : ∀ rest, segments (slash :: rest) = segments rest := fun rest => by
    rw [segments, splitString, splitFrom, if_pos rfl, if_pos rfl]
    rfl
  induction q with
  | nil => rfl
  | cons s q ih =>
    obtain ⟨⟨hne, hmem⟩, hq⟩ := List.forall_mem_cons.mp h
    rw [List.flatMap_cons, List.cons_append, hslash]
    cases q with
    | nil => rw [List.flatMap_nil, List.append_nil, segments, splitString_of_not_mem slash hne hmem]
    | cons s₁ q =>
      have ih := ih hq
      rw [List.flatMap_cons, List.cons_append, hslash] at ih
      rw [List.flatMap_cons, List.cons_append, segments, splitString_append slash hne hmem]
      exact congrArg (s :: ·) ih

theorem isSegment_of_mem {path s : Bytes} (h : s ∈ segments path) : IsSegment s :=
  ⟨ne_nil_of_mem_splitString h, not_mem_of_mem_splitString h⟩

theorem refuses_put_self (hok : t.refuses s = none) : (t.put s c).refuses s = none := by
  by_cases hs : IsParam s
  · obtain ⟨hlen, -⟩ := refuses_eq_none hok hs
    rw [put, if_pos hs, refuses, if_pos ⟨hs, hlen⟩, if_neg (fun h => h.2 rfl)]
  · rw [refuses, if_neg (fun h => hs h.1), if_neg hs]

theorem param_taken (hm : Supported method) {name : Bytes} (hc : Consistent t)
    (hnil : t.pathParam = []) (hname : name ≠ []) :
    (setSegments method e [colon :: name] t).2 = .ok () := by
  have hlen : 1 < (colon :: name).length := by
    have := List.length_pos_iff.mpr hname
    rw [List.length_cons]
    omega
  have hr : t.refuses (colon :: name) = none := by
    rw [refuses, if_pos ⟨rfl, hlen⟩, if_neg (fun h => h.1 hnil)]
  have hparam : IsParam (colon :: name) := rfl
  have hchild : t.child (colon :: name) = none := by
    rw [child, if_pos hparam, hc.param.mp hnil, ite_self]
  rw [setSegments_cons hc, hr, hchild]
  rcases hm with rfl | rfl <;> rfl

theorem refuses_other {name : Bytes} (hne : t.pathParam ≠ []) (hname : t.pathParam ≠ name)
    (hlen : 1 < (colon :: name).length) : t.refuses (colon :: name) =
      some (.runtimeError "http_router set_endpoint: path parameter name clash") := by
  rw [refuses, if_pos ⟨rfl, hlen⟩, if_pos ⟨hne, hname⟩]

/-- Where a call has named a parameter, a registration with another name there fails that would have
succeeded. -/
theorem names_noticed (hm : Supported method) {segs : List Bytes} (hc : Consistent t)
    (hsegs : ∀ s ∈ segs, IsSegment s) (hnames : Names segs t) :
    ∃ q, (∀ s ∈ q, IsSegment s) ∧ (setSegments method e q t).2 = .ok () ∧
      ∃ err, (setSegments method e q (setSegments method e segs t).1).2 = .error err := by
  induction segs generalizing t with
  | nil => exact hnames.elim
  | cons s segs ih =>
    obtain ⟨hr, hor⟩ := hnames
    obtain ⟨⟨hne, hmem⟩, hsegs⟩ := List.forall_mem_cons.mp hsegs
    have hset : (setSegments method e (s :: segs) t).1 =
        t.put s (setSegments method e segs ((t.child s).getD new)).1 := by
      rw [setSegments_cons hc, hr]
    rw [hset]
    rcases hor with ⟨hs, hnil⟩ | hnames
    · obtain ⟨hlen, -⟩ := refuses_eq_none hr hs
      have htail := tail_ne_nil hlen
      refine ⟨[colon :: (s.tail ++ [colon])], fun x hx => ?_, param_taken hm hc hnil (by simp),
        .runtimeError "http_router set_endpoint: path parameter name clash", ?_⟩
      · rw [List.mem_singleton.mp hx]
        refine ⟨List.cons_ne_nil _ _, fun h => ?_⟩
        rcases List.mem_cons.mp h with h | h
        · cases h
        · rcases List.mem_append.mp h with h | h
          · exact hmem (List.mem_of_mem_tail h)
          · cases List.mem_singleton.mp h
      · rw [setSegments_cons (consistent_put hc hr (consistent_set segs (hc.getD_child s))),
          refuses_other]
        · rw [put, if_pos hs]
          exact htail
        · rw [put, if_pos hs]
          simp
        · simp
    · obtain ⟨q, hq, hok, err, herr⟩ := ih (hc.getD_child s) hsegs hnames
      refine ⟨s :: q, List.forall_mem_cons.mpr ⟨⟨hne, hmem⟩, hq⟩, ?_, err, ?_⟩
      · rw [setSegments_cons hc, hr]
        exact hok
      · rw [setSegments_cons (consistent_put hc hr (consistent_set segs (hc.getD_child s))),
          refuses_put_self hr, child_put hc hr, if_pos rfl]
        exact herr

theorem exists_fresh (routes : List (Bytes × HttpRouter E)) (s₀ : Bytes) :
    ∃ v, IsSegment v ∧ v ≠ s₀ ∧ find (· == ·) routes v = none := by
  -- one longer than all of them
  let n := s₀.length + (routes.map fun p => p.1.length).sum + 1
  refine ⟨List.replicate n 97, ⟨by simp [n], fun h => ?_⟩, fun h => ?_, ?_⟩
  · cases (List.mem_replicate.mp h).2
  · have := congrArg List.length h
    simp only [List.length_replicate, n] at this
    omega
  · have hfind : ∀ ps : List (Bytes × HttpRouter E), (ps.map fun p => p.1.length).sum < n →
        find (· == ·) ps (List.replicate n 97) = none := by
      intro ps hlt
      induction ps with
      | nil => rfl
      | cons p ps ih =>
        rw [List.map_cons, List.sum_cons] at hlt
        rw [find, if_neg, ih (by omega)]
        rw [beq_iff_eq]
        intro heq
        rw [heq, List.length_replicate] at hlt
        omega
    exact hfind routes (by omega)

theorem matchSegments_nil (hm : Supported method) (t : HttpRouter E)
    (params : List (Bytes × Bytes)) : ∃ answer, matchSegments method [] t params =
      .ok (answer, params) := by
  rcases hm with rfl | rfl <;> exact ⟨_, rfl⟩

/-- Where a call has shadowed a parameter, a path that bound the parameter no longer does. -/
theorem shadows_noticed (hm : Supported method) {segs : List Bytes} (hc : Consistent t)
    (hsegs : ∀ s ∈ segs, IsSegment s) (hshadows : Shadows segs t) :
    ∃ s₀, ∀ params : List (Bytes × Bytes), (∀ name, find (· == ·) params name ≠ some s₀) →
      ∃ q, (∀ s ∈ q, IsSegment s) ∧ ∃ answer bound answer' bound' name,
        matchSegments method q t params = .ok (answer, bound) ∧
        matchSegments method q (setSegments method e segs t).1 params = .ok (answer', bound') ∧
        find (· == ·) bound name = some s₀ ∧ find (· == ·) bound' name ≠ some s₀ := by
  induction segs generalizing t with
  | nil => exact hshadows.elim
  | cons s segs ih =>
    obtain ⟨hr, hshadows⟩ := hshadows
    obtain ⟨hseg, hsegs⟩ := List.forall_mem_cons.mp hsegs
    have hset : (setSegments method e (s :: segs) t).1 =
        t.put s (setSegments method e segs ((t.child s).getD new)).1 := by
      rw [setSegments_cons hc, hr]
    rw [hset]
    cases hchild : t.child s with
    | none =>
      rw [hchild] at hshadows
      obtain ⟨hs, hne⟩ := hshadows
      rw [child, if_neg hs] at hchild
      obtain ⟨c, hroute⟩ : ∃ c, t.paramRoute = some c := by
        rw [← Option.isSome_iff_exists, Option.isSome_iff_ne_none]
        exact fun hn => hne (hc.param.mpr hn)
      refine ⟨s, fun params hparams => ⟨[s], by simpa using hseg, ?_⟩⟩
      obtain ⟨answer, hanswer⟩ := matchSegments_nil hm c (assign (· == ·) params t.pathParam s)
      obtain ⟨answer', hanswer'⟩ := matchSegments_nil hm
        (setSegments method e segs ((none : Option (HttpRouter E)).getD new)).1 params
      refine ⟨answer, _, answer', params, t.pathParam, ?_, ?_,
        find_assign_self isEquality_beq params t.pathParam s, hparams _⟩
      · rw [matchSegments, hchild]
        simp only [if_pos hne, hroute, hanswer]
      · rw [put, if_neg hs, matchSegments, find_assign_self isEquality_beq]
        exact hanswer'
    | some c =>
      rw [hchild] at hshadows
      obtain ⟨s₀, hrec⟩ := ih (hc.child hchild) hsegs hshadows
      refine ⟨s₀, fun params hparams => ?_⟩
      by_cases hs : IsParam s
      · obtain ⟨v, hv, hne, hfresh⟩ := exists_fresh t.routes s₀
        have hname : t.pathParam = s.tail ∧ t.paramRoute = some c := by
          rw [child, if_pos hs] at hchild
          by_cases hname : t.pathParam = s.tail
          · exact ⟨hname, by rwa [if_pos hname] at hchild⟩
          · rw [if_neg hname] at hchild
            cases hchild
        have hnonempty : t.pathParam ≠ [] := by
          rw [hname.1]
          exact tail_ne_nil (refuses_eq_none hr hs).1
        obtain ⟨q, hq, answer, bound, answer', bound', name, h, h', hb, hb'⟩ :=
          hrec (assign (· == ·) params t.pathParam v) fun name => by
            rw [find_assign isEquality_beq]
            split
            · exact fun heq => hne (Option.some.inj heq)
            · exact hparams name
        refine ⟨v :: q, List.forall_mem_cons.mpr ⟨hv, hq⟩, answer, bound, answer', bound', name, ?_,
          ?_, hb, hb'⟩
        · rw [matchSegments, hfresh]
          simp only [if_pos hnonempty, hname.2, h]
        · rw [put, if_pos hs, matchSegments, hfresh, ← hname.1]
          simp only [if_pos hnonempty]
          exact h'
      · rw [child, if_neg hs] at hchild
        obtain ⟨q, hq, answer, bound, answer', bound', name, h, h', hb, hb'⟩ := hrec params hparams
        refine ⟨s :: q, List.forall_mem_cons.mpr ⟨hseg, hq⟩, answer, bound, answer', bound', name, ?_,
          ?_, hb, hb'⟩
        · rw [matchSegments, hchild]
          exact h
        · rw [put, if_neg hs, matchSegments, find_assign_self isEquality_beq]
          exact h'

/-- A call on a new router throws only for the name of a parameter. -/
theorem new_error (hm : Supported method) {segs : List Bytes} {err : Exn}
    (hset : (setSegments method e segs (new : HttpRouter E)).2 = .error err) :
    err = .runtimeError "http_router set_endpoint: invalid path parameter name" := by
  induction segs with
  | nil => rcases hm with rfl | rfl <;> cases hset
  | cons s segs ih =>
    rw [setSegments_cons consistent_new] at hset
    cases hr : (new : HttpRouter E).refuses s with
    | some err' =>
      rw [hr] at hset
      obtain rfl := Except.error.inj hset
      rw [refuses, if_neg (fun h : (new : HttpRouter E).pathParam ≠ [] ∧ _ => h.1 rfl)] at hr
      split at hr
      · cases hr
      · split at hr
        · exact (Option.some.inj hr).symm
        · cases hr
    | none =>
      rw [hr, child_new] at hset
      exact ih hset

/-- Endpoints that are taken and parameters that clash are refused before anything is changed. -/
theorem not_names_of_error (hm : Supported method) {segs : List Bytes} {err : Exn}
    (hc : Consistent t) (hset : (setSegments method e segs t).2 = .error err)
    (herr : err ≠ .runtimeError "http_router set_endpoint: invalid path parameter name") :
    ¬ Names segs t ∧ ¬ Shadows segs t := by
  induction segs generalizing t with
  | nil => exact ⟨id, id⟩
  | cons s segs ih =>
    rw [setSegments_cons hc] at hset
    rw [Names, Shadows]
    cases hr : t.refuses s with
    | some err' => simp
    | none =>
      rw [hr] at hset
      cases hchild : t.child s with
      | none =>
        rw [hchild] at hset
        exact absurd (new_error hm hset) herr
      | some c =>
        rw [hchild] at hset
        obtain ⟨hnames, hshadows⟩ := ih (hc.child hchild) hset
        refine ⟨?_, fun h => hshadows h.2⟩
        rintro ⟨-, ⟨hs, hnil⟩ | h⟩
        · rw [child, if_pos hs, hc.param.mp hnil, ite_self] at hchild
          cases hchild
        · exact hnames h

end HttpRouter

/-! ## Calls -/

inductive Registration (E : Type) where
  | get (path : Bytes) (endpoint : Option E)
  | post (path : Bytes) (endpoint : Option E)

namespace Registration

open HttpRouter

variable {E : Type}

def run (t : HttpRouter E) : Registration E → HttpRouter E × Except Exn Unit
  | get path endpoint => t.get path endpoint
  | post path endpoint => t.post path endpoint

def method : Registration E → HttpMethod
  | get _ _ => .GET
  | post _ _ => .POST

def endpoint : Registration E → Option E
  | get _ endpoint => endpoint
  | post _ endpoint => endpoint

def pattern : Registration E → List Bytes
  | get path _ => segments path
  | post path _ => segments path

def after (t : HttpRouter E) (calls : List (Registration E)) : HttpRouter E :=
  calls.foldl (fun t r => (r.run t).1) t

def outcomes (t : HttpRouter E) : List (Registration E) → List (Except Exn Unit)
  | [] => []
  | r :: rs => (r.run t).2 :: outcomes (r.run t).1 rs

/-- What a caller of `match` sees: the endpoint, and the parameters by name. -/
def answer (t : HttpRouter E) (method : HttpMethod) (path : Bytes) (params : List (Bytes × Bytes)) :
    Except Exn (Option E × (Bytes → Option Bytes)) :=
  (t.matchPath method path params).map fun r => (r.1, find (· == ·) r.2)

/-- From the old router to the new one nothing has changed: they match alike, and registrations end
alike. -/
def Unnoticed (t t' : HttpRouter E) : Prop :=
  (∀ method, Supported method → ∀ path params,
      answer t' method path params = answer t method path params) ∧
    ∀ calls, outcomes t' calls = outcomes t calls

theorem supported_method (r : Registration E) : Supported r.method := by
  cases r
  · exact .inl rfl
  · exact .inr rfl

theorem run_setSegments (t : HttpRouter E) (r : Registration E) :
    r.run t = setSegments r.method r.endpoint r.pattern t := by
  cases r <;> exact setEndpoint_eq _ _ _ _

theorem consistent_after (calls : List (Registration E)) {t : HttpRouter E} (h : Consistent t) :
    Consistent (after t calls) := by
  induction calls generalizing t with
  | nil => exact h
  | cons r rs ih =>
    have hrun : Consistent (r.run t).1 := by
      rw [run_setSegments]
      exact consistent_set r.pattern h
    exact ih hrun

theorem outcomes_eq {t t' : HttpRouter E} (h : Alike t t') (hc : Consistent t) (hc' : Consistent t')
    (calls : List (Registration E)) : outcomes t' calls = outcomes t calls := by
  induction calls generalizing t t' with
  | nil => rfl
  | cons r rs ih =>
    obtain ⟨hres, halike⟩ := h.set r.method r.endpoint r.pattern hc hc'
    rw [outcomes, outcomes, run_setSegments, run_setSegments, hres]
    rw [ih halike (consistent_set _ hc) (consistent_set _ hc')]

/-- A call that throws goes unnoticed exactly if it has neither named a parameter nor shadowed one. -/
theorem unnoticed_iff (calls : List (Registration E)) (r : Registration E) (err : Exn)
    (herr : (r.run (after .new calls)).2 = .error err) :
    (Unnoticed (after .new calls) (r.run (after .new calls)).1 ↔
      ¬ Names r.pattern (after .new calls) ∧ ¬ Shadows r.pattern (after .new calls)) ∧
    (err ≠ .runtimeError "http_router set_endpoint: invalid path parameter name" →
      Unnoticed (after .new calls) (r.run (after .new calls)).1) := by
  have hc : Consistent (after .new calls) := consistent_after calls consistent_new
  have hm := r.supported_method
  have hsegs : ∀ s ∈ r.pattern, IsSegment s := by
    intro s hs
    cases r <;> exact isSegment_of_mem hs
  generalize after .new calls = t at hc herr ⊢
  rw [run_setSegments] at herr ⊢
  have hback : ¬ Names r.pattern t ∧ ¬ Shadows r.pattern t →
      Unnoticed t (setSegments r.method r.endpoint r.pattern t).1 := by
    rintro ⟨hnames, hshadows⟩
    obtain ⟨halike, hmatch⟩ := unnoticed_of_error hm hc (Prod.ext rfl herr) hnames hshadows
    refine ⟨fun method hm' path params => ?_, outcomes_eq halike hc (consistent_set _ hc)⟩
    rw [answer, answer, matchPath_eq, matchPath_eq, hmatch method hm']
  refine ⟨⟨fun ⟨hmatch, hcalls⟩ => ⟨fun hnames => ?_, fun hshadows => ?_⟩, hback⟩,
    fun hne => hback (not_names_of_error hm hc herr hne)⟩
  · obtain ⟨q, hq, hok, err', herr'⟩ := names_noticed (e := r.endpoint) hm hc hsegs hnames
    obtain ⟨path, hpath⟩ := exists_path hq
    obtain ⟨r', hr'⟩ : ∃ r' : Registration E, r'.method = r.method ∧ r'.endpoint = r.endpoint ∧
        r'.pattern = q := by
      cases r with
      | get _ endpoint => exact ⟨.get path endpoint, rfl, rfl, hpath⟩
      | post _ endpoint => exact ⟨.post path endpoint, rfl, rfl, hpath⟩
    have := hcalls [r']
    simp only [outcomes, run_setSegments, hr', List.cons.injEq, and_true] at this
    rw [hok, herr'] at this
    cases this
  · obtain ⟨s₀, hrec⟩ := shadows_noticed (e := r.endpoint) hm hc hsegs hshadows
    obtain ⟨q, hq, answer₁, bound, answer₂, bound', name, h, h', hb, hb'⟩ :=
      hrec [] fun name => by simp [find]
    obtain ⟨path, hpath⟩ := exists_path hq
    have := hmatch r.method hm path []
    rw [answer, answer, matchPath_eq, matchPath_eq, hpath, h, h'] at this
    have heq := congrFun (Prod.mk.inj (Except.ok.inj this)).2 name
    exact hb' (heq.trans hb)

theorem unnoticed_iff_users :
    let t : HttpRouter Nat := after .new [.get (ascii "/users/:id") (some 1)]
    let r : Registration Nat := .post (ascii "/users/:id/:") (some 2)
    (Unnoticed t (r.run t).1 ↔ ¬ Names r.pattern t ∧ ¬ Shadows r.pattern t) := by
  intro t r
  have herr : (r.run t).2 =
      .error (.runtimeError "http_router set_endpoint: invalid path parameter name") := by
    simp only [t, after, List.foldl_cons, List.foldl_nil, run_setSegments]
    rfl
  exact (unnoticed_iff [.get (ascii "/users/:id") (some 1)] r _ herr).1

/-- The router has `/:id`; the call for `/new/:` throws, and `/new` is no longer matched. -/
theorem not_unnoticed_new :
    let t : HttpRouter Nat := after .new [.get (ascii "/:id") (some 1)]
    let r : Registration Nat := .get (ascii "/new/:") (some 2)
    (r.run t).2 = .error (.runtimeError "http_router set_endpoint: invalid path parameter name") ∧
      t.matchPath .GET (ascii "/new") [] = .ok (some 1, [(ascii "id", ascii "new")]) ∧
      (r.run t).1.matchPath .GET (ascii "/new") [] = .ok (none, []) ∧
      ¬ Unnoticed t (r.run t).1 := by
  intro t r
  have hbefore : t.matchPath .GET (ascii "/new") [] = .ok (some 1, [(ascii "id", ascii "new")]) := by
    simp only [t, after, List.foldl_cons, List.foldl_nil, run_setSegments, matchPath_eq]
    rfl
  have hafter : (r.run t).1.matchPath .GET (ascii "/new") [] = .ok (none, []) := by
    simp only [t, after, List.foldl_cons, List.foldl_nil, run_setSegments, matchPath_eq]
    rfl
  refine ⟨?_, hbefore, hafter, fun h => ?_⟩
  · simp only [t, after, List.foldl_cons, List.foldl_nil, run_setSegments]
    rfl
  · have := h.1 .GET (.inl rfl) (ascii "/new") []
    rw [answer, answer, hbefore, hafter] at this
    cases (Prod.mk.inj (Except.ok.inj this)).1

end Registration

end CppEvent
