import Mathlib

/-!
# Cutting lists

What is common to two decompositions of one list into a front and a back; the front and the back of a
list that is given in pieces, where the cut may fall inside a piece; and lists with fillers among their
elements.
-/

namespace List

variable {α : Type}

theorem eq_take_append_drop_of_append_eq {u v b r : List α} (h : u ++ v = b ++ r) :
    b = u.take b.length ++ b.drop u.length := by
  rcases append_eq_append_iff.mp h with ⟨t, hb, _⟩ | ⟨t, hu, _⟩
  · rw [hb, drop_left, take_of_length_le (by simp)]
  · rw [hu, take_left, drop_of_length_le (by simp), append_nil]

theorem foldl_append_nil (ps : List (List α)) : ps.foldl (· ++ ·) [] = ps.flatten := by
  have happend : ps.foldl (· ++ id ·) [] = [] ++ (ps.map id).flatten := foldl_append_eq_append
  simpa using happend

theorem prefix_or_of_append_eq_append_cons {u v b r : List α} {x : α} (h : u ++ v = b ++ x :: r) :
    (∃ t, b = u ++ t) ∨ ∃ t, u = b ++ x :: t := by
  rcases append_eq_append_iff.mp h with ⟨t, hb, _⟩ | ⟨t, hu, hr⟩
  · exact .inl ⟨t, hb⟩
  · cases t with
    | nil => exact .inl ⟨[], by rw [hu, append_nil, append_nil]⟩
    | cons y t =>
      obtain rfl : x = y := (cons.inj hr).1
      exact .inr ⟨t, hu⟩

theorem infix_append_cons_iff {w : List α} {sep : α} (hsep : sep ∉ w) {a b : List α} :
    w <:+: a ++ sep :: b ↔ w <:+: a ∨ w <:+: b := by
  constructor
  · rintro ⟨s, t, h⟩
    rcases prefix_or_of_append_eq_append_cons h with ⟨u, rfl⟩ | ⟨u, hu⟩
    · exact .inl ⟨s, u, rfl⟩
    · rcases append_eq_append_iff.mp hu with ⟨v, -, rfl⟩ | ⟨v, rfl, hv⟩
      · exact absurd (mem_append_right v mem_cons_self) hsep
      · cases v with
        | nil =>
          obtain rfl : sep :: u = w := hv
          exact absurd mem_cons_self hsep
        | cons y v =>
          obtain ⟨rfl, rfl⟩ := cons.inj hv
          refine .inr ⟨v, t, ?_⟩
          simpa only [append_assoc, cons_append, append_cancel_left_eq, cons.injEq, true_and] using h
  · rintro (h | h)
    · exact h.trans (prefix_append a _).isInfix
    · exact h.trans ((suffix_cons sep b).trans (suffix_append a _)).isInfix

/-- A word without the terminator of the pieces that occurs in them occurs in one of them. -/
theorem infix_flatMap_iff {w : List α} {sep : α} (hsep : sep ∉ w) (hw : w ≠ [])
    (pieces : List (List α)) :
    w <:+: pieces.flatMap (· ++ [sep]) ↔ ∃ p ∈ pieces, w <:+: p := by
  induction pieces with
  | nil => simp [hw]
  | cons p pieces ih =>
    rw [flatMap_cons, append_assoc, singleton_append, infix_append_cons_iff hsep, ih,
      exists_mem_cons_iff]

/-! ## Lists in pieces -/

/-- The first `n` elements of a list in pieces. -/
def takeFlat : Nat → List (List α) → List (List α)
  | _, [] => []
  | n, p :: ps => if n = 0 then [] else p.take n :: takeFlat (n - p.length) ps

/-- What is left of a list in pieces after its first `n` elements. -/
def dropFlat : Nat → List (List α) → List (List α)
  | _, [] => []
  | n, p :: ps => if n < p.length then p.drop n :: ps else dropFlat (n - p.length) ps

@[simp] theorem takeFlat_nil (n : Nat) : takeFlat n ([] : List (List α)) = [] := by
  cases n <;> rfl

@[simp] theorem takeFlat_zero (ps : List (List α)) : takeFlat 0 ps = [] := by
  cases ps with
  | nil => rfl
  | cons p ps => rw [takeFlat, if_pos rfl]

@[simp] theorem dropFlat_nil (n : Nat) : dropFlat n ([] : List (List α)) = [] := by
  cases n <;> rfl

theorem dropFlat_zero {ps : List (List α)} (h : [] ∉ ps) : dropFlat 0 ps = ps := by
  cases ps with
  | nil => rfl
  | cons p ps =>
    have hp : p ≠ [] := fun hp => h (by simp [hp])
    rw [dropFlat, if_pos (length_pos_iff.mpr hp), drop_zero]

theorem nil_not_mem_dropFlat {ps : List (List α)} (n : Nat) (h : [] ∉ ps) :
    [] ∉ dropFlat n ps := by
  induction ps generalizing n with
  | nil => simp
  | cons p ps ih =>
    rw [mem_cons, not_or] at h
    rw [dropFlat]
    by_cases hn : n < p.length
    · rw [if_pos hn, mem_cons, not_or]
      refine ⟨fun hd => ?_, h.2⟩
      have := congrArg length hd
      rw [length_nil, length_drop] at this
      omega
    · rw [if_neg hn]
      exact ih _ h.2

theorem nil_not_mem_takeFlat {ps : List (List α)} (n : Nat) (h : [] ∉ ps) :
    [] ∉ takeFlat n ps := by
  induction ps generalizing n with
  | nil => simp
  | cons p ps ih =>
    rw [mem_cons, not_or] at h
    rw [takeFlat]
    by_cases hn : n = 0
    · simp [hn]
    · rw [if_neg hn, mem_cons, not_or]
      refine ⟨fun hp => ?_, ih _ h.2⟩
      have hpos := length_pos_iff.mpr (Ne.symm h.1)
      have := congrArg length hp
      rw [length_nil, length_take] at this
      omega

theorem flatten_takeFlat (n : Nat) (ps : List (List α)) :
    (takeFlat n ps).flatten = ps.flatten.take n := by
  induction ps generalizing n with
  | nil => simp
  | cons p ps ih =>
    rw [takeFlat]
    by_cases hn : n = 0
    · simp [hn]
    · rw [if_neg hn, flatten_cons, flatten_cons, ih, take_append]

theorem flatten_dropFlat (n : Nat) (ps : List (List α)) :
    (dropFlat n ps).flatten = ps.flatten.drop n := by
  induction ps generalizing n with
  | nil => simp
  | cons p ps ih =>
    rw [dropFlat, flatten_cons, drop_append]
    by_cases hn : n < p.length
    · rw [if_pos hn, flatten_cons, Nat.sub_eq_zero_of_le (Nat.le_of_lt hn), drop_zero]
    · have hp : p.drop n = [] := drop_eq_nil_of_le (by omega)
      rw [if_neg hn, ih, hp, nil_append]

theorem takeFlat_cons {n : Nat} {p : List α} {ps : List (List α)} (hn : 0 < n)
    (h : [] ∉ p :: ps) : takeFlat n (p :: ps) =
      p.take n :: takeFlat (n - min n p.length) (dropFlat (min n p.length) (p :: ps)) := by
  rw [mem_cons, not_or] at h
  rw [takeFlat, if_neg (by omega)]
  rcases Nat.lt_or_ge n p.length with hlt | hle
  · rw [Nat.min_eq_left (by omega), Nat.sub_self, takeFlat_zero, Nat.sub_eq_zero_of_le (by omega),
      takeFlat_zero]
  · rw [Nat.min_eq_right hle, dropFlat, if_neg (by omega), Nat.sub_self, dropFlat_zero h.2]

theorem dropFlat_cons {n : Nat} {p : List α} {ps : List (List α)} (h : [] ∉ p :: ps) :
    dropFlat n (p :: ps) = dropFlat (n - min n p.length) (dropFlat (min n p.length) (p :: ps)) := by
  rcases Nat.lt_or_ge n p.length with hlt | hle
  · rw [Nat.min_eq_left (by omega), Nat.sub_self, dropFlat_zero (nil_not_mem_dropFlat n h)]
  · rw [mem_cons, not_or] at h
    rw [Nat.min_eq_right hle, dropFlat, if_neg (by omega), dropFlat, if_neg (by omega),
      Nat.sub_self, dropFlat_zero h.2]

theorem length_lt_length_flatten {ps : List (List α)} (h : [] ∉ ps) (hlen : 1 < ps.length)
    {p : List α} (hp : p ∈ ps) : p.length < ps.flatten.length := by
  match ps with
  | [] => simp at hlen
  | [_] => simp at hlen
  | q :: r :: ps =>
    have hpos : ∀ s ∈ q :: r :: ps, 0 < s.length := fun s hs =>
      length_pos_iff.mpr fun hnil => h (hnil ▸ hs)
    have hq := hpos q (by simp)
    have hr := hpos r (by simp)
    rw [flatten_cons, length_append]
    rcases mem_cons.mp hp with rfl | hp
    · rw [flatten_cons, length_append]
      omega
    · have := (sublist_flatten_of_mem hp).length_le
      omega

/-! ### Boundaries of pieces -/

/-- `x` elements make up a number of the first pieces, of these sizes. -/
def IsBoundary (sizes : List Nat) (x : Nat) : Prop := ∃ k, (sizes.take k).sum = x

/-- Some boundary lies strictly inside the `n` elements from `offset` on, as far as there are as
many. -/
def Straddles (sizes : List Nat) (offset n : Nat) : Prop :=
  ∃ x, IsBoundary sizes x ∧ offset < x ∧ x < min (offset + n) sizes.sum

theorem isBoundary_nil {x : Nat} : IsBoundary [] x ↔ x = 0 := by
  simp [IsBoundary, eq_comm]

theorem isBoundary_cons {a : Nat} {sizes : List Nat} {x : Nat} :
    IsBoundary (a :: sizes) x ↔ x = 0 ∨ ∃ y, IsBoundary sizes y ∧ a + y = x := by
  constructor
  · rintro ⟨k, rfl⟩
    cases k with
    | zero => exact .inl rfl
    | succ k => exact .inr ⟨_, ⟨k, rfl⟩, by rw [take_succ_cons, sum_cons]⟩
  · rintro (rfl | ⟨_, ⟨k, rfl⟩, rfl⟩)
    · exact ⟨0, rfl⟩
    · exact ⟨k + 1, by rw [take_succ_cons, sum_cons]⟩

theorem isBoundary_of_append {l l' : List Nat} {x : Nat} (h : IsBoundary (l ++ l') x) :
    IsBoundary l x ∨ l.sum ≤ x := by
  obtain ⟨k, rfl⟩ := h
  rw [take_append]
  rcases Nat.le_total k l.length with hk | hk
  · exact .inl ⟨k, by rw [Nat.sub_eq_zero_of_le hk, take_zero, append_nil]⟩
  · right
    rw [take_of_length_le hk, sum_append]
    omega

theorem isBoundary_dropFlat {x : Nat} (hx : 0 < x) (n : Nat) (ps : List (List α)) :
    IsBoundary ((dropFlat n ps).map length) x ↔ IsBoundary (ps.map length) (n + x) := by
  induction ps generalizing n with
  | nil =>
    rw [dropFlat_nil, map_nil, isBoundary_nil, isBoundary_nil]
    omega
  | cons p ps ih =>
    rw [dropFlat, map_cons, isBoundary_cons]
    rcases Nat.lt_or_ge n p.length with hlt | hle
    · rw [if_pos hlt, map_cons, isBoundary_cons, length_drop]
      refine or_congr (by omega) (exists_congr fun y => and_congr_right fun _ => by omega)
    · rw [if_neg (by omega), ih]
      constructor
      · exact fun h => .inr ⟨_, h, by omega⟩
      · rintro (h | ⟨y, h, hy⟩)
        · omega
        · rwa [show n - p.length + x = y by omega]

theorem straddles_dropFlat (m offset n : Nat) (ps : List (List α)) :
    Straddles ((dropFlat m ps).map length) offset n ↔
      Straddles (ps.map length) (m + offset) n := by
  have hsum : ((dropFlat m ps).map length).sum = (ps.map length).sum - m := by
    rw [← length_flatten, flatten_dropFlat, length_drop, length_flatten]
  rw [Straddles, Straddles, hsum]
  constructor
  · rintro ⟨x, hx, hlt, hlt'⟩
    exact ⟨m + x, (isBoundary_dropFlat (by omega) m ps).mp hx, by omega, by omega⟩
  · rintro ⟨x, hx, hlt, hlt'⟩
    refine ⟨x - m, (isBoundary_dropFlat (by omega) m ps).mpr ?_, by omega, by omega⟩
    rwa [show m + (x - m) = x by omega]

/-- The first `n` elements come in more than one piece exactly if a boundary lies inside them. -/
theorem one_lt_length_takeFlat {n : Nat} {ps : List (List α)} (h : [] ∉ ps) :
    1 < (takeFlat n ps).length ↔ Straddles (ps.map length) 0 n := by
  cases ps with
  | nil => simp [Straddles]
  | cons p ps =>
    rw [mem_cons, not_or] at h
    have hp : 0 < p.length := length_pos_iff.mpr (Ne.symm h.1)
    rw [Straddles, map_cons, sum_cons, takeFlat]
    constructor
    · intro hlen
      have hn : n ≠ 0 := fun hn => by simp [hn] at hlen
      rw [if_neg hn, length_cons] at hlen
      cases ps with
      | nil => simp at hlen
      | cons q ps =>
        have hq : 0 < q.length := length_pos_iff.mpr fun hq => h.2 (by simp [hq])
        have hlt : n - p.length ≠ 0 := fun hn => by simp [hn] at hlen
        refine ⟨p.length, ⟨1, by simp⟩, hp, ?_⟩
        rw [map_cons, sum_cons]
        omega
    · rintro ⟨x, hx, hpos, hlt⟩
      rcases isBoundary_cons.mp hx with rfl | ⟨y, ⟨k, rfl⟩, rfl⟩
      · omega
      · rw [if_neg (by omega), length_cons]
        cases ps with
        | nil =>
          simp only [map_nil, take_nil, sum_nil] at hlt
          omega
        | cons q ps =>
          rw [takeFlat, if_neg (by omega), length_cons]
          omega

/-! ## Fillers -/

section Carry

variable {α β : Type} {f : α → β} {filler : β → Prop}

/-- The elements are `ys` under `f`, each of them behind any number of fillers. -/
inductive Carry (f : α → β) (filler : β → Prop) : List α → List β → Prop
  | nil : Carry f filler [] []
  | cons {x : α} {xs : List α} {y : β} {ys : List β} :
      f x = y → Carry f filler xs ys → Carry f filler (x :: xs) (y :: ys)
  | filler {x : α} {xs : List α} {y : β} {ys : List β} :
      filler (f x) → Carry f filler xs (y :: ys) → Carry f filler (x :: xs) (y :: ys)

theorem Carry.next {xs : List α} {y : β} {ys : List β} (h : Carry f filler xs (y :: ys)) :
    ∃ ns x xs', xs = ns ++ x :: xs' ∧ (∀ n ∈ ns, filler (f n)) ∧ f x = y ∧
      Carry f filler xs' ys := by
  generalize hall : y :: ys = all at h
  induction h with
  | nil => cases hall
  | cons hx hxs _ =>
    obtain ⟨rfl, rfl⟩ := List.cons.inj hall
    exact ⟨[], _, _, rfl, by simp, hx, hxs⟩
  | filler hn _ ih =>
    obtain ⟨ns, x, xs', rfl, hns, hx, hxs'⟩ := ih hall
    exact ⟨_ :: ns, x, xs', rfl, forall_mem_cons.mpr ⟨hn, hns⟩, hx, hxs'⟩

theorem Carry.of_map (xs : List α) : Carry f filler xs (xs.map f) := by
  induction xs with
  | nil => exact .nil
  | cons x xs ih => exact .cons rfl ih

end Carry

end List
