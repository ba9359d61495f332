import CppEvent.Base.Charconv

/-!
# Text utilities

`cppevent_http/util.cpp`, and `std::tolower` as the http code uses it (in the C locale).
-/

namespace CppEvent

/-- `std::tolower`. -/
def toLower (c : Byte) : Byte := if 65 ≤ c ∧ c ≤ 90 then c + 32 else c

/-- The loop of `split_string`; `cur` is `s[start..i)`. -/
def splitFrom (separator : Byte) : Bytes → Bytes → List Bytes
  | cur, [] => if cur = [] then [] else [cur]
  | cur, c :: rest =>
      if c = separator then
        if cur = [] then splitFrom separator [] rest else cur :: splitFrom separator [] rest
      else splitFrom separator (cur ++ [c]) rest

def splitString (s : Bytes) (separator : Byte) : List Bytes := splitFrom separator [] s

/-- The loop of `retrieve_params`; `cur` is `s[start..i)`, and `key` lives on over a `'&'`. -/
def retrieveFrom : Bytes → Bytes → Bytes → List (Bytes × Bytes)
  | key, cur, [] => if cur ≠ [] ∧ key ≠ [] then [(key, cur)] else []
  | key, cur, c :: rest =>
      if c = 38 then
        if cur ≠ [] ∧ key ≠ [] then (key, cur) :: retrieveFrom key [] rest
        else retrieveFrom key [] rest
      else if c = 61 then
        if cur ≠ [] then retrieveFrom cur [] rest else retrieveFrom key [] rest
      else retrieveFrom key (cur ++ [c]) rest

/-- `retrieve_params`: the multimap as its pairs in the order of insertion. -/
def retrieveParams (s : Bytes) : List (Bytes × Bytes) := retrieveFrom [] [] s

def trimString (s : Bytes) : Bytes :=
  (s.dropWhile (· == space)).rdropWhile (· == space)

/-- The inner loop of `find_case_insensitive`: `search` occurs at the front up to case. -/
def occursAtFront : Bytes → Bytes → Bool
  | _, [] => true
  | [], _ :: _ => false
  | t :: text, c :: search => toLower t == toLower c && occursAtFront text search

def findFrom (search : Bytes) (i : Nat) : Bytes → Option Nat
  | [] => if occursAtFront [] search then some i else none
  | t :: text =>
      if (t :: text).length < search.length then none
      else if occursAtFront (t :: text) search then some i
      else findFrom search (i + 1) text

/-- `find_case_insensitive`, with `npos` as `none`. -/
def findCaseInsensitive (text search : Bytes) : Option Nat :=
  if search = [] then some 0 else findFrom search 0 text

theorem splitFrom_of_ne_nil (separator : Byte) {cur : Bytes} (hcur : cur ≠ []) (rest : Bytes) :
    splitFrom separator cur rest = (cur ++ rest.takeWhile (· != separator)) ::
      splitFrom separator [] (rest.dropWhile (· != separator)) := by
  induction rest generalizing cur with
  | nil => simp [splitFrom, hcur]
  | cons c rest ih =>
    by_cases hc : c = separator
    · simp [splitFrom, hc, hcur]
    · simp [splitFrom, hc, ih, List.append_assoc]

theorem splitString_dropWhile (separator : Byte) (s : Bytes) :
    splitString (s.dropWhile (· == separator)) separator = splitString s separator := by
  induction s with
  | nil => rfl
  | cons c s ih =>
    by_cases hc : c = separator
    · rw [List.dropWhile_cons_of_pos (by simpa using hc), ih]
      simp [splitString, splitFrom, hc]
    · rw [List.dropWhile_cons_of_neg (by simpa using hc)]

/-- A text that does not start with the separator gives its first piece, then the others. -/
theorem splitString_cons (separator : Byte) {c : Byte} (hc : c ≠ separator) (s : Bytes) :
    splitString (c :: s) separator = (c :: s).takeWhile (· != separator) ::
      splitString ((c :: s).dropWhile (· != separator)) separator := by
  rw [splitString, splitFrom, if_neg hc, List.nil_append,
    splitFrom_of_ne_nil separator (List.cons_ne_nil c [])]
  simp [splitString, hc]

theorem splitString_append (separator : Byte) {piece : Bytes} (hne : piece ≠ [])
    (hpiece : separator ∉ piece) (rest : Bytes) :
    splitString (piece ++ separator :: rest) separator = piece :: splitString rest separator := by
  cases piece with
  | nil => exact absurd rfl hne
  | cons c cs =>
    have hall : ∀ x ∈ c :: cs, (x != separator) = true := fun x hx => by
      rw [bne_iff_ne]
      rintro rfl
      exact hpiece hx
    rw [List.cons_append, splitString_cons separator (by simpa using hall c List.mem_cons_self),
      ← List.cons_append, List.takeWhile_append_of_pos hall, List.dropWhile_append_of_pos hall]
    simp [splitString, splitFrom]

theorem splitString_of_not_mem (separator : Byte) {piece : Bytes} (hne : piece ≠ [])
    (hpiece : separator ∉ piece) : splitString piece separator = [piece] := by
  cases piece with
  | nil => exact absurd rfl hne
  | cons c cs =>
    have hall : ∀ x ∈ c :: cs, (x != separator) = true := fun x hx => by
      rw [bne_iff_ne]
      rintro rfl
      exact hpiece hx
    rw [splitString_cons separator (by simpa using hall c List.mem_cons_self),
      List.takeWhile_eq_self_iff.mpr hall, List.dropWhile_eq_nil_iff.mpr hall]
    rfl

theorem ne_nil_of_mem_splitFrom (separator : Byte) {cur s piece : Bytes}
    (h : piece ∈ splitFrom separator cur s) : piece ≠ [] := by
  induction s generalizing cur with
  | nil =>
    by_cases hcur : cur = []
    · simp [splitFrom, hcur] at h
    · simp [splitFrom, hcur] at h
      exact h ▸ hcur
  | cons c s ih =>
    by_cases hc : c = separator
    · by_cases hcur : cur = []
      · exact ih (by simpa [splitFrom, hc, hcur] using h)
      · rw [splitFrom, if_pos hc, if_neg hcur, List.mem_cons] at h
        rcases h with rfl | h
        · exact hcur
        · exact ih h
    · exact ih (by simpa [splitFrom, hc] using h)

theorem ne_nil_of_mem_splitString {separator : Byte} {s piece : Bytes}
    (h : piece ∈ splitString s separator) : piece ≠ [] := ne_nil_of_mem_splitFrom separator h

theorem not_mem_of_mem_splitFrom (separator : Byte) {cur s piece : Bytes} (hcur : separator ∉ cur)
    (h : piece ∈ splitFrom separator cur s) : separator ∉ piece := by
  induction s generalizing cur with
  | nil =>
    rw [splitFrom] at h
    split at h
    · cases h
    · exact List.mem_singleton.mp h ▸ hcur
  | cons c s ih =>
    rw [splitFrom] at h
    split at h
    · split at h
      · exact ih List.not_mem_nil h
      · rcases List.mem_cons.mp h with rfl | h
        · exact hcur
        · exact ih List.not_mem_nil h
    · rename_i hc
      refine ih ?_ h
      rw [List.mem_append, List.mem_singleton, not_or]
      exact ⟨hcur, fun heq => hc heq.symm⟩

theorem not_mem_of_mem_splitString {separator : Byte} {s piece : Bytes}
    (h : piece ∈ splitString s separator) : separator ∉ piece :=
  not_mem_of_mem_splitFrom separator List.not_mem_nil h

/-- A text that neither begins nor ends with a space. -/
def Trimmed (s : Bytes) : Prop := s.head? ≠ some space ∧ s.getLast? ≠ some space

theorem trimString_of_trimmed {s : Bytes} (h : Trimmed s) : trimString s = s := by
  have hfront : s.dropWhile (· == space) = s := by
    cases s with
    | nil => rfl
    | cons c cs =>
      have hc : c ≠ space := fun hc => h.1 (by simp [hc])
      rw [List.dropWhile_cons_of_neg (by simpa using hc)]
  rw [trimString, hfront, List.rdropWhile_eq_self_iff]
  intro hne
  have := h.2
  rw [List.getLast?_eq_some_getLast hne] at this
  simpa using this

theorem trimString_space_cons (s : Bytes) : trimString (space :: s) = trimString s := by
  simp [trimString]

end CppEvent
