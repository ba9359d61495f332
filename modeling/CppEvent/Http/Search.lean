import CppEvent.Http.Util
import CppEvent.Library.Coroutine

/-!
# Searching up to case

`find_case_insensitive` by its indices, with the unsigned subtraction for its last position and every
access to a text checked (`Indexed.findCaseInsensitive`). It finds the first occurrence, and nothing
if there is none, without an access outside of the texts (`find_exact`), and so does what
`findCaseInsensitive` computes from the front.
-/

namespace CppEvent

open Coroutine

/-- `search` stands in `text` behind the first `i` characters, up to case. -/
def OccursAt (text search : Bytes) (i : Nat) : Prop := ∃ before found after,
  text = before ++ (found ++ after) ∧ before.length = i ∧ found.map toLower = search.map toLower

/-- What a search is for: the first position, or the knowledge that there is none. -/
def Finds (text search : Bytes) : Option Nat → Prop
  | some i => OccursAt text search i ∧ ∀ k < i, ¬ OccursAt text search k
  | none => ∀ k, ¬ OccursAt text search k

section Occurrences

variable {text search : Bytes} {i : Nat}

theorem OccursAt.length_le (h : OccursAt text search i) : i + search.length ≤ text.length := by
  obtain ⟨before, found, after, rfl, rfl, hmap⟩ := h
  have hlength := congrArg List.length hmap
  rw [List.length_map, List.length_map] at hlength
  simp only [List.length_append]
  omega

theorem occursAt_iff (hle : i + search.length ≤ text.length) : OccursAt text search i ↔
    ∀ j < search.length, toLower (text.getD (i + j) 0) = toLower (search.getD j 0) := by
  constructor
  · rintro ⟨before, found, after, rfl, rfl, hmap⟩ j hj
    have hlength := congrArg List.length hmap
    rw [List.length_map, List.length_map] at hlength
    have hget := congrArg (fun s => s[j]?) hmap
    simp only [List.getElem?_map] at hget
    rw [List.getElem?_eq_getElem (by omega), List.getElem?_eq_getElem hj] at hget
    have htext : (before ++ (found ++ after)).getD (before.length + j) 0 = found[j] := by
      rw [List.getD_eq_getElem?_getD, List.getElem?_append_right (by omega), Nat.add_sub_cancel_left,
        List.getElem?_append_left (by omega), List.getElem?_eq_getElem (by omega), Option.getD_some]
    rw [htext, ← List.getElem_eq_getD (h := hj) 0]
    exact Option.some.inj hget
  · intro h
    refine ⟨text.take i, (text.drop i).take search.length, (text.drop i).drop search.length, ?_, ?_, ?_⟩
    · rw [List.take_append_drop, List.take_append_drop]
    · rw [List.length_take]
      omega
    · refine List.ext_getElem ?_ fun j hj hj' => ?_
      · simp only [List.length_map, List.length_take, List.length_drop]
        omega
      · rw [List.length_map] at hj'
        have := h j hj'
        rw [← List.getElem_eq_getD (h := hj') 0, ← List.getElem_eq_getD (h := by omega) 0] at this
        rw [List.getElem_map, List.getElem_map, List.getElem_take, List.getElem_drop]
        exact this

theorem Finds.unique {r r' : Option Nat} (h : Finds text search r) (h' : Finds text search r') :
    r = r' := by
  cases r with
  | none =>
    cases r' with
    | none => rfl
    | some i => exact absurd h'.1 (h i)
  | some i =>
    cases r' with
    | none => exact absurd h.1 (h' i)
    | some k =>
      rcases Nat.lt_trichotomy i k with hlt | rfl | hlt
      · exact absurd h.1 (h'.2 i hlt)
      · rfl
      · exact absurd h'.1 (h.2 k hlt)

theorem occursAt_succ_iff {c : Byte} : OccursAt (c :: text) search (i + 1) ↔ OccursAt text search i := by
  constructor
  · rintro ⟨before, found, after, htext, hlength, hmap⟩
    cases before with
    | nil => cases hlength
    | cons b before =>
      exact ⟨before, found, after, (List.cons.inj htext).2, Nat.succ.inj hlength, hmap⟩
  · rintro ⟨before, found, after, rfl, rfl, hmap⟩
    exact ⟨c :: before, found, after, rfl, rfl, hmap⟩

theorem occursAtFront_iff (text search : Bytes) :
    occursAtFront text search = true ↔ OccursAt text search 0 := by
  have hzero (text search : Bytes) : OccursAt text search 0 ↔
      ∃ found after, text = found ++ after ∧ found.map toLower = search.map toLower := by
    constructor
    · rintro ⟨before, found, after, rfl, hlength, hmap⟩
      obtain rfl := List.eq_nil_of_length_eq_zero hlength
      exact ⟨found, after, rfl, hmap⟩
    · rintro ⟨found, after, rfl, hmap⟩
      exact ⟨[], found, after, rfl, rfl, hmap⟩
  rw [hzero]
  fun_induction occursAtFront text search with
  | case1 text => exact iff_of_true rfl ⟨[], text, rfl, rfl⟩
  | case2 c search =>
    refine iff_of_false Bool.false_ne_true ?_
    rintro ⟨found, after, hnil, hmap⟩
    obtain ⟨rfl, -⟩ := List.append_eq_nil_iff.mp hnil.symm
    cases hmap
  | case3 t text c search ih =>
    rw [Bool.and_eq_true, beq_iff_eq]
    constructor
    · rintro ⟨htc, hfront⟩
      obtain ⟨found, after, rfl, hmap⟩ := ih.mp hfront
      exact ⟨t :: found, after, rfl, by rw [List.map_cons, List.map_cons, htc, hmap]⟩
    · rintro ⟨found, after, htext, hmap⟩
      cases found with
      | nil => cases hmap
      | cons f found =>
        obtain ⟨rfl, rfl⟩ := List.cons.inj htext
        obtain ⟨htc, hrest⟩ := List.cons.inj hmap
        exact ⟨htc, ih.mpr ⟨found, after, rfl, hrest⟩⟩

theorem findFrom_finds (text search : Bytes) : ∀ i, ∃ r,
    findFrom search i text = r.map (i + ·) ∧ Finds text search r := by
  induction text with
  | nil =>
    intro i
    rw [findFrom]
    by_cases hfront : occursAtFront [] search = true
    · exact ⟨some 0, by rw [if_pos hfront]; rfl, (occursAtFront_iff _ _).mp hfront,
        fun k hk => absurd hk (Nat.not_lt_zero k)⟩
    · refine ⟨none, by rw [if_neg hfront]; rfl, fun k hk => ?_⟩
      obtain rfl : k = 0 := by
        have := hk.length_le
        rw [List.length_nil] at this
        omega
      exact hfront ((occursAtFront_iff _ _).mpr hk)
  | cons c text ih =>
    intro i
    rw [findFrom]
    by_cases hshort : (c :: text).length < search.length
    · refine ⟨none, by rw [if_pos hshort]; rfl, fun k hk => ?_⟩
      have := hk.length_le
      omega
    · rw [if_neg hshort]
      by_cases hfront : occursAtFront (c :: text) search = true
      · exact ⟨some 0, by rw [if_pos hfront]; rfl, (occursAtFront_iff _ _).mp hfront,
          fun k hk => absurd hk (Nat.not_lt_zero k)⟩
      · obtain ⟨r, hfind, hr⟩ := ih (i + 1)
        have hzero : ¬ OccursAt (c :: text) search 0 :=
          fun h => hfront ((occursAtFront_iff _ _).mpr h)
        rw [if_neg hfront, hfind]
        cases r with
        | none =>
          refine ⟨none, rfl, fun k hk => ?_⟩
          cases k with
          | zero => exact hzero hk
          | succ k => exact hr k (occursAt_succ_iff.mp hk)
        | some n =>
          refine ⟨some (n + 1), congrArg some (show i + 1 + n = i + (n + 1) by omega),
            occursAt_succ_iff.mpr hr.1, fun k hk hoccurs => ?_⟩
          cases k with
          | zero => exact hzero hoccurs
          | succ k => exact hr.2 k (Nat.lt_of_succ_lt_succ hk) (occursAt_succ_iff.mp hoccurs)

theorem findCaseInsensitive_finds (text search : Bytes) :
    Finds text search (findCaseInsensitive text search) := by
  rw [findCaseInsensitive]
  by_cases hempty : search = []
  · rw [if_pos hempty, hempty]
    exact ⟨⟨[], [], text, rfl, rfl, rfl⟩, fun k hk => absurd hk (Nat.not_lt_zero k)⟩
  · rw [if_neg hempty]
    obtain ⟨r, hfind, hr⟩ := findFrom_finds text search 0
    have hid : r.map (0 + ·) = r := by
      simp only [Nat.zero_add]
      exact Option.map_id'
    rwa [hfind, hid]

end Occurrences

/-! ## By indices -/

/-- A `std::string_view`; no object has 2 ^ 63 bytes. -/
structure StringView where
  text : Bytes
  length_lt : text.length < 2 ^ 63

namespace Indexed

/-- `s[i]`. -/
def charAt (s : StringView) (i : Int) : Coro Unit Exn Byte :=
  if 0 ≤ i ∧ i < s.text.length then pure (s.text.getD i.toNat 0) else Coro.stuck

/-- `text.size() - search_len`, a `size_t`, as the `long` that it is stored in. -/
def lastPos (text search : StringView) : Int :=
  (BitVec.ofNat 64 text.text.length - BitVec.ofNat 64 search.text.length).toInt

/-- One round of the inner loop, which ends with its `j`. -/
def compareRound (text search : StringView) (i j : Int) : Coro Unit Exn (Int ⊕ Int) :=
  if j < search.text.length then do
    let t ← charAt text (i + j)
    let c ← charAt search j
    pure (if toLower t = toLower c then .inl (j + 1) else .inr j)
  else pure (.inr j)

/-- One round of the outer loop, which ends with the result of the function. -/
def findRound (text search : StringView) (i : Int) : Coro Unit Exn (Int ⊕ Option Nat) :=
  if i ≤ lastPos text search then do
    let j ← Coro.loop (fun _ => search.text.length + 1) (compareRound text search i) 0
    pure (if j = search.text.length then .inr (some i.toNat) else .inl (i + 1))
  else pure (.inr none)

/-- `find_case_insensitive`, with `npos` as `none`. -/
def findCaseInsensitive (text search : StringView) : Coro Unit Exn (Option Nat) :=
  if search.text = [] then pure (some 0)
  else Coro.loop (fun _ => text.text.length + 2) (findRound text search) 0

variable {text search : StringView}

/-- The subtraction wraps where the text is shorter, and comes back when it is stored. -/
theorem lastPos_eq (text search : StringView) :
    lastPos text search = text.text.length - search.text.length := by
  have h₁ := text.length_lt
  have h₂ := search.length_lt
  have hlong {n : Nat} (h : n < 2 ^ 63) : (BitVec.ofNat 64 n).toInt = n := by
    rw [BitVec.toInt_ofNat', Int.bmod_eq_of_le_mul_two (by omega) (by omega)]
  rw [lastPos, BitVec.toInt_sub, hlong h₁, hlong h₂,
    Int.bmod_eq_of_le_mul_two (by omega) (by omega)]

theorem charAt_run {s : StringView} {i : Nat} (h : i < s.text.length) :
    (charAt s i).run () = (.returned (s.text.getD i 0), ()) := by
  rw [charAt, if_pos (by omega)]
  rfl

/-- At a position behind which the text is long enough the inner loop stays in both texts, and runs to
the end of the second exactly if it occurs there. -/
theorem compare_run (text search : StringView) {i : Nat}
    (hle : i + search.text.length ≤ text.text.length) : ∃ j : Nat,
    (Coro.loop (fun _ => search.text.length + 1) (compareRound text search i) 0).run () =
        (.returned (j : Int), ()) ∧
      (j = search.text.length ↔ OccursAt text.text search.text i) := by
  -- between rounds the characters before `j` have agreed
  obtain ⟨_, _, hloop, j, rfl, hj⟩ := Coro.loop_returns (fun _ => search.text.length + 1)
    (compareRound text search i)
    (fun j' _ => ∃ j : Nat, j' = j ∧ j ≤ search.text.length ∧
      ∀ k < j, toLower (text.text.getD (i + k) 0) = toLower (search.text.getD k 0))
    (fun j' _ => ∃ j : Nat, j' = j ∧ (j = search.text.length ↔ OccursAt text.text search.text i))
    (fun j' _ => search.text.length - j'.toNat) 0 () ⟨0, rfl, Nat.zero_le _, by simp⟩ (by simp)
    (fun j' _ ⟨j, hj', hjle, hagree⟩ => by
      subst hj'
      rw [compareRound]
      by_cases hlt : j < search.text.length
      · have ht := charAt_run (s := text) (i := i + j) (by omega)
        rw [Nat.cast_add] at ht
        rw [if_pos (by omega), Coro.bind_returned _ ht, Coro.bind_returned _ (charAt_run hlt),
          Coro.run_pure]
        by_cases hsame : toLower (text.text.getD (i + j) 0) = toLower (search.text.getD j 0)
        · refine .inl ⟨(j : Int) + 1, (), by rw [if_pos hsame], ⟨j + 1, rfl, hlt, fun k hk => ?_⟩, ?_⟩
          · rcases Nat.lt_succ_iff_lt_or_eq.mp hk with hk | rfl
            · exact hagree k hk
            · exact hsame
          · omega
        · refine .inr ⟨(j : Int), (), by rw [if_neg hsame], j, rfl, iff_of_false (by omega) ?_⟩
          rw [occursAt_iff hle]
          exact fun hall => hsame (hall j hlt)
      · obtain rfl : j = search.text.length := by omega
        refine .inr ⟨_, (), by rw [if_neg (by omega)]; rfl, _, rfl, iff_of_true rfl ?_⟩
        rwa [occursAt_iff hle])
  exact ⟨j, hloop, hj⟩

/-- The positions are tried from the front. -/
theorem findCaseInsensitive_run (text search : StringView) : ∃ r,
    (findCaseInsensitive text search).run () = (.returned r, ()) ∧ Finds text.text search.text r := by
  rw [findCaseInsensitive]
  by_cases hempty : search.text = []
  · rw [if_pos hempty]
    exact ⟨some 0, rfl, ⟨[], [], text.text, rfl, rfl, by rw [hempty]⟩,
      fun k hk => absurd hk (Nat.not_lt_zero k)⟩
  · rw [if_neg hempty]
    have hpos := List.length_pos_iff.mpr hempty
    -- between rounds there is no occurrence before `i`
    obtain ⟨r, _, hloop, hr⟩ := Coro.loop_returns (fun _ => text.text.length + 2)
      (findRound text search)
      (fun i' _ => ∃ i : Nat, i' = i ∧ i ≤ text.text.length + 1 ∧
        ∀ k < i, ¬ OccursAt text.text search.text k)
      (fun r _ => Finds text.text search.text r)
      (fun i' _ => text.text.length + 1 - i'.toNat) 0 () ⟨0, rfl, Nat.zero_le _, by simp⟩ (by simp)
      (fun i' _ ⟨i, hi', hile, hnone⟩ => by
        subst hi'
        rw [findRound, lastPos_eq]
        by_cases hlast : (i : Int) ≤ text.text.length - search.text.length
        · obtain ⟨j, hcompare, hj⟩ := compare_run text search
            (by omega : i + search.text.length ≤ text.text.length)
          rw [if_pos hlast, Coro.bind_returned _ hcompare, Coro.run_pure]
          by_cases hoccurs : OccursAt text.text search.text i
          · refine .inr ⟨some i, (), ?_, hoccurs, hnone⟩
            rw [if_pos (by rw [hj.mpr hoccurs]), Int.toNat_natCast]
          · have hne : (j : Int) ≠ search.text.length :=
              fun h => hoccurs (hj.mp (Int.ofNat_inj.mp h))
            refine .inl ⟨(i : Int) + 1, (), by rw [if_neg hne], ⟨i + 1, rfl, by omega, fun k hk => ?_⟩,
              by omega⟩
            rcases Nat.lt_succ_iff_lt_or_eq.mp hk with hk | rfl
            · exact hnone k hk
            · exact hoccurs
        · refine .inr ⟨none, (), by rw [if_neg hlast]; rfl, fun k hk => ?_⟩
          have := hk.length_le
          exact hnone k (by omega) hk)
    exact ⟨r, hloop, hr⟩

end Indexed

/-- Whatever the text and the search are, nothing outside of them is accessed, and what is returned is
the least position at which the search occurs up to case, `npos` exactly if there is none, and 0 for an
empty search; a search longer than the text is not found. -/
theorem find_exact (text search : StringView) :
    (Indexed.findCaseInsensitive text search).run () =
        (.returned (findCaseInsensitive text.text search.text), ()) ∧
      (∀ i, findCaseInsensitive text.text search.text = some i ↔
        OccursAt text.text search.text i ∧ ∀ k < i, ¬ OccursAt text.text search.text k) ∧
      (findCaseInsensitive text.text search.text = none ↔
        ∀ i, ¬ OccursAt text.text search.text i) ∧
      (search.text = [] → findCaseInsensitive text.text search.text = some 0) ∧
      (text.text.length < search.text.length →
        findCaseInsensitive text.text search.text = none) := by
  have hfinds := findCaseInsensitive_finds text.text search.text
  have hiff (r : Option Nat) : findCaseInsensitive text.text search.text = r ↔
      Finds text.text search.text r := by
    refine ⟨?_, hfinds.unique⟩
    rintro rfl
    exact hfinds
  obtain ⟨r, hrun, hr⟩ := Indexed.findCaseInsensitive_run text search
  refine ⟨by rw [hrun, hfinds.unique hr], fun i => hiff (some i), hiff none, fun hempty => ?_,
    fun hlonger => (hiff none).mpr fun i hi => ?_⟩
  · rw [findCaseInsensitive, if_pos hempty]
  · have := hi.length_le
    omega

end CppEvent
