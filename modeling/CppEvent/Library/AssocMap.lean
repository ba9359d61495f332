import Mathlib

/-!
# Finite maps as association lists

A map with keys in `κ` compared by a boolean relation: `find` is its lookup, `assign` its subscript
assignment, which keeps the key that is already there.
-/

namespace AssocMap

variable {κ ν : Type}

def find (same : κ → κ → Bool) : List (κ × ν) → κ → Option ν
  | [], _ => none
  | (k', v) :: m, k => if same k' k then some v else find same m k

def assign (same : κ → κ → Bool) : List (κ × ν) → κ → ν → List (κ × ν)
  | [], k, v => [(k, v)]
  | (k', v') :: m, k, v =>
      if same k' k then (k', v) :: m else (k', v') :: assign same m k v

/-- The relations by which keys may be compared. -/
structure IsEquality (same : κ → κ → Bool) : Prop where
  refl : ∀ a, same a a
  symm : ∀ a b, same a b → same b a
  trans : ∀ a b c, same a b → same b c → same a c

variable {same : κ → κ → Bool}

theorem IsEquality.congr_right (h : IsEquality same) {a b : κ} (hab : same a b) (c : κ) :
    same c a = same c b := by
  rw [Bool.eq_iff_iff]
  exact ⟨fun hc => h.trans _ _ _ hc hab, fun hc => h.trans _ _ _ hc (h.symm _ _ hab)⟩

theorem find_congr (h : IsEquality same) (m : List (κ × ν)) {a b : κ} (hab : same a b) :
    find same m a = find same m b := by
  induction m with
  | nil => rfl
  | cons p m ih => simp only [find, ih, h.congr_right hab]

theorem find_assign_self (h : IsEquality same) (m : List (κ × ν)) (k : κ) (v : ν) :
    find same (assign same m k v) k = some v := by
  induction m with
  | nil => simp [assign, find, h.refl]
  | cons p m ih =>
    obtain ⟨k', v'⟩ := p
    by_cases hk : same k' k
    · simp [assign, find, hk]
    · simp [assign, find, hk, ih]

theorem find_assign_of_not_same (h : IsEquality same) (m : List (κ × ν)) {k k₁ : κ} (v : ν)
    (hne : same k k₁ = false) : find same (assign same m k v) k₁ = find same m k₁ := by
  induction m with
  | nil => simp [assign, find, hne]
  | cons p m ih =>
    obtain ⟨k', v'⟩ := p
    by_cases hk : same k' k
    · have hk₁ : same k' k₁ = false := by
        rw [Bool.eq_false_iff]
        intro h₁
        rw [h.trans _ _ _ (h.symm _ _ hk) h₁] at hne
        exact Bool.noConfusion hne
      simp [assign, find, hk, hk₁]
    · simp [assign, find, hk, ih]

theorem find_assign (h : IsEquality same) (m : List (κ × ν)) (k k₁ : κ) (v : ν) :
    find same (assign same m k v) k₁ = if same k k₁ then some v else find same m k₁ := by
  by_cases hk : same k k₁
  · rw [if_pos hk, ← find_congr h _ hk, find_assign_self h]
  · rw [if_neg hk, find_assign_of_not_same h _ _ (by simpa using hk)]

theorem find_filter_ne [DecidableEq κ] (m : List (κ × ν)) (k k₁ : κ) :
    find (· == ·) (m.filter fun p => p.1 ≠ k) k₁ =
      if k = k₁ then none else find (· == ·) m k₁ := by
  induction m with
  | nil => simp [find]
  | cons p m ih =>
    obtain ⟨k', v'⟩ := p
    by_cases hk : k' = k
    · subst hk
      rw [List.filter_cons_of_neg (by simp), ih]
      by_cases hk₁ : k' = k₁ <;> simp [find, hk₁]
    · rw [List.filter_cons_of_pos (by simpa using hk), find, find, ih]
      by_cases hk₁ : k' = k₁
      · subst hk₁
        simp [Ne.symm hk]
      · simp [hk₁]

/-- Of several assignments to a key the last one counts. -/
theorem find_foldl_assign (h : IsEquality same) (ps : List (κ × ν)) (m : List (κ × ν)) (k : κ) :
    find same (ps.foldl (fun m p => assign same m p.1 p.2) m) k =
      ((ps.filter fun p => same p.1 k).getLast?.map Prod.snd).or (find same m k) := by
  induction ps using List.reverseRecOn with
  | nil => rfl
  | append_singleton ps p ih =>
    rw [List.foldl_append, List.foldl_cons, List.foldl_nil, find_assign h, ih,
      List.filter_append]
    by_cases hk : same p.1 k
    · simp [hk]
    · simp [hk]

/-- Of assignments to different keys every one counts, whatever their order. -/
theorem find_foldl_assign_eq_some_iff (h : IsEquality same) {ps : List (κ × ν)}
    (hps : ps.Pairwise fun p q => same p.1 q.1 = false) {k : κ} {v : ν} :
    find same (ps.foldl (fun m p => assign same m p.1 p.2) []) k = some v ↔
      ∃ p ∈ ps, same p.1 k ∧ p.2 = v := by
  induction ps using List.reverseRecOn with
  | nil => simp [find]
  | append_singleton ps p ih =>
    obtain ⟨hps, _, hlast⟩ := List.pairwise_append.mp hps
    rw [List.foldl_append, List.foldl_cons, List.foldl_nil, find_assign h]
    by_cases hk : same p.1 k
    · rw [if_pos hk, Option.some.injEq]
      constructor
      · exact fun hv => ⟨p, by simp, hk, hv⟩
      · rintro ⟨q, hq, hqk, hv⟩
        rcases List.mem_append.mp hq with hq | hq
        · have hqp := hlast q hq p (by simp)
          rw [h.trans _ _ _ hqk (h.symm _ _ hk)] at hqp
          exact absurd hqp (by simp)
        · rw [List.mem_singleton] at hq
          rwa [← hq]
    · rw [if_neg hk, ih hps]
      refine exists_congr fun q => and_congr_left fun hq => ?_
      rw [List.mem_append, List.mem_singleton]
      refine ⟨.inl, fun hor => hor.resolve_right fun hqp => hk ?_⟩
      rw [← hqp]
      exact hq.1

def Distinct (same : κ → κ → Bool) (m : List (κ × ν)) : Prop :=
  m.Pairwise fun p q => same p.1 q.1 = false

/-- The keys of a map after an assignment are the old ones and the new one. -/
theorem mem_assign {m : List (κ × ν)} {k : κ} {v : ν} {p : κ × ν} (h : p ∈ assign same m k v) :
    (p.1 = k ∨ ∃ q ∈ m, q.1 = p.1) ∧ (p.2 = v ∨ ∃ q ∈ m, q.2 = p.2) := by
  induction m with
  | nil =>
    obtain rfl := List.mem_singleton.mp h
    exact ⟨.inl rfl, .inl rfl⟩
  | cons q m ih =>
    rw [assign] at h
    split at h
    · rcases List.mem_cons.mp h with rfl | h
      · exact ⟨.inr ⟨q, List.mem_cons_self, rfl⟩, .inl rfl⟩
      · exact ⟨.inr ⟨p, List.mem_cons_of_mem q h, rfl⟩, .inr ⟨p, List.mem_cons_of_mem q h, rfl⟩⟩
    · rcases List.mem_cons.mp h with rfl | h
      · exact ⟨.inr ⟨_, List.mem_cons_self, rfl⟩, .inr ⟨_, List.mem_cons_self, rfl⟩⟩
      · obtain ⟨hk, hv⟩ := ih h
        exact ⟨hk.imp_right fun ⟨r, hr, he⟩ => ⟨r, List.mem_cons_of_mem q hr, he⟩,
          hv.imp_right fun ⟨r, hr, he⟩ => ⟨r, List.mem_cons_of_mem q hr, he⟩⟩

theorem distinct_assign {m : List (κ × ν)} (hm : Distinct same m) (k : κ)
    (v : ν) : Distinct same (assign same m k v) := by
  induction m with
  | nil => exact List.pairwise_singleton _ _
  | cons q m ih =>
    obtain ⟨hq, hm⟩ := List.pairwise_cons.mp hm
    rw [assign]
    split
    · exact List.pairwise_cons.mpr ⟨hq, hm⟩
    · rename_i hne
      refine List.pairwise_cons.mpr ⟨fun p hp => ?_, ih hm⟩
      rcases (mem_assign hp).1 with hk | ⟨r, hr, hk⟩
      · rw [hk]
        simpa using hne
      · rw [← hk]
        exact hq r hr

theorem distinct_foldl_assign (ps : List (κ × ν)) :
    Distinct same (ps.foldl (fun m p => assign same m p.1 p.2) []) := by
  induction ps using List.reverseRecOn with
  | nil => exact List.Pairwise.nil
  | append_singleton ps p ih =>
    rw [List.foldl_append]
    exact distinct_assign ih p.1 p.2

theorem find_eq_some_iff (h : IsEquality same) {m : List (κ × ν)} (hm : Distinct same m) {k : κ}
    {v : ν} : find same m k = some v ↔ ∃ p ∈ m, same p.1 k ∧ p.2 = v := by
  induction m with
  | nil => simp [find]
  | cons q m ih =>
    obtain ⟨hq, hm⟩ := List.pairwise_cons.mp hm
    rw [find]
    by_cases hk : same q.1 k
    · rw [if_pos hk, Option.some.injEq]
      refine ⟨fun hv => ⟨q, List.mem_cons_self, hk, hv⟩, ?_⟩
      rintro ⟨p, hp, hpk, hv⟩
      rcases List.mem_cons.mp hp with rfl | hp
      · exact hv
      · have := hq p hp
        rw [h.trans _ _ _ hk (h.symm _ _ hpk)] at this
        cases this
    · rw [if_neg hk, ih hm]
      simp [hk]

/-- A lookup may pass over the keys in other buckets if equal keys are in the same one. -/
theorem find_bucket {β : Type} [DecidableEq β] {bucket : κ → β}
    (h : ∀ a b, same a b → bucket a = bucket b) (m : List (κ × ν)) (k : κ) :
    find (fun a b => bucket a = bucket b && same a b) m k = find same m k := by
  have hsame : (fun a b => decide (bucket a = bucket b) && same a b) = same := by
    funext a b
    rw [Bool.eq_iff_iff, Bool.and_eq_true, decide_eq_true_iff]
    exact and_iff_right_of_imp (h a b)
  rw [hsame]

theorem isEquality_beq [BEq κ] [LawfulBEq κ] : IsEquality fun a b : κ => a == b where
  refl a := by simp
  symm a b hab := by simpa using (beq_iff_eq.mp hab).symm
  trans a b c hab hbc := by simpa using (beq_iff_eq.mp hab).trans (beq_iff_eq.mp hbc)

end AssocMap
