import CppEvent.Http.Request
import CppEvent.Http.Router

/-!
# The header store

Any lines given to `process_header_line`: which of them are taken, and what `get_header` finds of them
(`header_store`).
-/

namespace CppEvent

/-! ## Outer spaces -/

/-- `t` is `s` without its outer spaces. -/
def IsTrimOf (t s : Bytes) : Prop :=
  (∃ i j, s = List.replicate i space ++ t ++ List.replicate j space) ∧ Trimmed t

theorem trimString_concat_space (s : Bytes) : trimString (s ++ [space]) = trimString s := by
  have hlast : ∀ u : Bytes, (u ++ [space]).rdropWhile (· == space) = u.rdropWhile (· == space) :=
    fun u => List.rdropWhile_concat_pos _ _ _ (by simp)
  rw [trimString, trimString, List.dropWhile_append]
  split
  · rename_i hnil
    rw [List.isEmpty_iff] at hnil
    rw [hnil]
    rfl
  · exact hlast _

theorem trimString_spaces (i j : Nat) (s : Bytes) :
    trimString (List.replicate i space ++ s ++ List.replicate j space) = trimString s := by
  rw [List.append_assoc]
  induction i with
  | zero =>
    rw [List.replicate_zero, List.nil_append]
    induction j with
    | zero => rw [List.replicate_zero, List.append_nil]
    | succ j ih => rw [List.replicate_succ', ← List.append_assoc, trimString_concat_space, ih]
  | succ i ih => rw [List.replicate_succ, List.cons_append, trimString_space_cons, ih]

theorem exists_front_spaces (s : Bytes) :
    ∃ i, s = List.replicate i space ++ s.dropWhile (· == space) := by
  refine ⟨(s.takeWhile (· == space)).length, ?_⟩
  have hspaces : s.takeWhile (· == space) =
      List.replicate (s.takeWhile (· == space)).length space := by
    refine List.eq_replicate_of_mem fun c hc => ?_
    simpa using List.mem_takeWhile_imp hc
  rw [← hspaces, List.takeWhile_append_dropWhile]

theorem isTrimOf_trimString (s : Bytes) : IsTrimOf (trimString s) s := by
  obtain ⟨i, hi⟩ := exists_front_spaces s
  obtain ⟨j, hj⟩ := exists_front_spaces (s.dropWhile (· == space)).reverse
  have hback : s.dropWhile (· == space) = trimString s ++ List.replicate j space := by
    rw [trimString, List.rdropWhile]
    have := congrArg List.reverse hj
    rwa [List.reverse_reverse, List.reverse_append, List.reverse_replicate] at this
  refine ⟨⟨i, j, by rw [List.append_assoc, ← hback, ← hi]⟩, fun hhead => ?_, fun hlast => ?_⟩
  · -- a space in front would be one in front of what was left of the text
    have hfront : (s.dropWhile (· == space)).head? = some space := by
      rw [hback, List.head?_append, hhead]
      rfl
    have := List.head?_dropWhile_not (· == space) s
    rw [hfront] at this
    simp at this
  · have hne : trimString s ≠ [] := by
      rintro hnil
      rw [hnil] at hlast
      cases hlast
    refine List.rdropWhile_last_not (· == space) (s.dropWhile (· == space)) hne ?_
    rw [List.getLast?_eq_some_getLast hne] at hlast
    exact beq_iff_eq.mpr (Option.some.inj hlast)

theorem isTrimOf_iff {s t : Bytes} : IsTrimOf t s ↔ trimString s = t := by
  constructor
  · rintro ⟨⟨i, j, rfl⟩, ht⟩
    rw [trimString_spaces, trimString_of_trimmed ht]
  · rintro rfl
    exact isTrimOf_trimString s

/-! ## Lines -/

/-- The line is a header: what stands before its first colon and what stands behind it is something
without the outer spaces. -/
def IsHeaderLine (line name value : Bytes) : Prop := ∃ before after,
  line = before ++ colon :: after ∧ colon ∉ before ∧ IsTrimOf name before ∧ IsTrimOf value after ∧
    name ≠ [] ∧ value ≠ []

theorem takeWhile_colon {before : Bytes} (h : colon ∉ before) (after : Bytes) :
    (before ++ colon :: after).takeWhile (· != 58) = before ∧
      (before ++ colon :: after).dropWhile (· != 58) = colon :: after := by
  have hall : ∀ c ∈ before, (c != 58) = true := fun c hc => by
    rw [bne_iff_ne]
    rintro rfl
    exact h hc
  rw [List.takeWhile_append_of_pos hall, List.dropWhile_append_of_pos hall]
  simp

theorem IsHeaderLine.unique {line name name' value value' : Bytes}
    (h : IsHeaderLine line name value) (h' : IsHeaderLine line name' value') :
    name = name' ∧ value = value' := by
  obtain ⟨before, after, hline, hbefore, hname, hvalue, -⟩ := h
  obtain ⟨before', after', hline', hbefore', hname', hvalue', -⟩ := h'
  have hfront := takeWhile_colon hbefore after
  have hfront' := takeWhile_colon hbefore' after'
  rw [← hline] at hfront
  rw [← hline'] at hfront'
  obtain rfl : before = before' := hfront.1.symm.trans hfront'.1
  obtain rfl : after = after' := (List.cons.inj (hfront.2.symm.trans hfront'.2)).2
  exact ⟨(isTrimOf_iff.mp hname).symm.trans (isTrimOf_iff.mp hname'),
    (isTrimOf_iff.mp hvalue).symm.trans (isTrimOf_iff.mp hvalue')⟩

def LineNames (line key : Bytes) : Prop :=
  ∃ name value, IsHeaderLine line name value ∧ name.map toLower = key.map toLower

/-- The last of the lines that name the key gives it this value. -/
def LastNamed (lines : List Bytes) (key value : Bytes) : Prop := ∃ before line after name,
  lines = before ++ line :: after ∧ IsHeaderLine line name value ∧
    name.map toLower = key.map toLower ∧ ∀ later ∈ after, ¬ LineNames later key

theorem LastNamed.concat_iff {lines : List Bytes} {line key value : Bytes} (h : ¬ LineNames line key) :
    LastNamed (lines ++ [line]) key value ↔ LastNamed lines key value := by
  constructor
  · rintro ⟨before, named, after, name, hlines, hheader, hname, hlater⟩
    rcases List.eq_nil_or_concat after with rfl | ⟨after, last, rfl⟩
    · obtain ⟨-, hline⟩ := List.append_inj' hlines rfl
      obtain rfl := List.singleton_inj.mp hline
      exact absurd ⟨name, value, hheader, hname⟩ h
    · rw [List.concat_eq_append, ← List.cons_append, ← List.append_assoc] at hlines
      obtain ⟨rfl, -⟩ := List.append_inj' hlines rfl
      exact ⟨before, named, after, name, rfl, hheader, hname, fun l hl => hlater l (by simp [hl])⟩
  · rintro ⟨before, named, after, name, rfl, hheader, hname, hlater⟩
    refine ⟨before, named, after ++ [line], name, by simp, hheader, hname, fun l hl => ?_⟩
    rcases List.mem_append.mp hl with hl | hl
    · exact hlater l hl
    · rwa [List.mem_singleton.mp hl]

namespace HttpRequest

theorem processHeaderLine_header {line name value : Bytes} (h : IsHeaderLine line name value)
    (req : HttpRequest) : req.processHeaderLine line =
      (true, { req with headers := req.headers.assign name value }) := by
  obtain ⟨before, after, rfl, hbefore, hname, hvalue, hnamene, hvaluene⟩ := h
  obtain ⟨htake, hdrop⟩ := takeWhile_colon hbefore after
  rw [processHeaderLine, hdrop, htake]
  simp only
  rw [isTrimOf_iff.mp hname, isTrimOf_iff.mp hvalue, if_neg (by simp [hnamene, hvaluene])]

theorem processHeaderLine_other {line : Bytes} (h : ¬ ∃ name value, IsHeaderLine line name value)
    (req : HttpRequest) : req.processHeaderLine line = (false, req) := by
  by_cases hmem : colon ∈ line
  · obtain ⟨before, after, rfl, hbefore⟩ := List.eq_append_cons_of_mem hmem
    obtain ⟨htake, hdrop⟩ := takeWhile_colon hbefore after
    rw [processHeaderLine, hdrop, htake]
    refine if_pos ?_
    by_contra hne
    rw [not_or] at hne
    exact h ⟨_, _, before, after, rfl, hbefore, isTrimOf_trimString _, isTrimOf_trimString _, hne⟩
  · have hdrop : line.dropWhile (· != 58) = [] := by
      refine List.dropWhile_eq_nil_iff.mpr fun c hc => ?_
      rw [bne_iff_ne]
      rintro rfl
      exact hmem hc
    rw [processHeaderLine, hdrop]

theorem processHeaderLine_iff (req : HttpRequest) (line : Bytes) :
    (req.processHeaderLine line).1 = true ↔ ∃ name value, IsHeaderLine line name value := by
  constructor
  · intro htrue
    by_contra h
    rw [processHeaderLine_other h] at htrue
    cases htrue
  · rintro ⟨name, value, h⟩
    rw [processHeaderLine_header h]

def processHeaderLines (req : HttpRequest) (lines : List Bytes) : HttpRequest :=
  lines.foldl (fun req line => (req.processHeaderLine line).2) req

theorem getHeader_processHeaderLines {req : HttpRequest} (hreq : req.headers = [])
    (lines : List Bytes) (key value : Bytes) :
    (req.processHeaderLines lines).getHeader key = some value ↔ LastNamed lines key value := by
  induction lines using List.reverseRecOn with
  | nil =>
    have hnone : req.getHeader key = none := by
      rw [getHeader, hreq]
      rfl
    rw [processHeaderLines, List.foldl_nil, hnone]
    refine iff_of_false nofun ?_
    rintro ⟨before, line, after, name, hlines, -⟩
    simp at hlines
  | append_singleton lines line ih =>
    rw [processHeaderLines, List.foldl_append, List.foldl_cons, List.foldl_nil, ← processHeaderLines]
    by_cases hline : ∃ name value, IsHeaderLine line name value
    · obtain ⟨name, stored, hheader⟩ := hline
      have hassign : ((req.processHeaderLines lines).processHeaderLine line).2.getHeader key =
          if caseInsensitiveEquality name key then some stored
          else (req.processHeaderLines lines).getHeader key := by
        rw [processHeaderLine_header hheader]
        exact AssocMap.find_assign isEquality_caseInsensitive _ name key stored
      rw [hassign]
      by_cases hsame : name.map toLower = key.map toLower
      · rw [if_pos ((caseInsensitiveEquality_iff name key).mpr hsame), Option.some.injEq]
        constructor
        · rintro rfl
          exact ⟨lines, line, [], name, rfl, hheader, hsame, nofun⟩
        · rintro ⟨before, named, after, name', hlines, hheader', -, hlater⟩
          rcases List.eq_nil_or_concat after with rfl | ⟨after, last, rfl⟩
          · obtain ⟨-, hnamed⟩ := List.append_inj' hlines rfl
            obtain rfl := List.singleton_inj.mp hnamed
            exact (hheader.unique hheader').2
          · rw [List.concat_eq_append, ← List.cons_append, ← List.append_assoc] at hlines
            obtain ⟨-, hlast⟩ := List.append_inj' hlines rfl
            obtain rfl := List.singleton_inj.mp hlast
            exact absurd ⟨name, stored, hheader, hsame⟩ (hlater line (by simp))
      · rw [if_neg (mt (caseInsensitiveEquality_iff name key).mp hsame), ih, LastNamed.concat_iff]
        rintro ⟨name', value', hheader', hname'⟩
        rw [← (hheader.unique hheader').1] at hname'
        exact hsame hname'
    · rw [processHeaderLine_other hline, ih, LastNamed.concat_iff]
      rintro ⟨name, value', hheader, -⟩
      exact hline ⟨name, value', hheader⟩

theorem getHeader_eq_none_iff {req : HttpRequest} (hreq : req.headers = []) (lines : List Bytes)
    (key : Bytes) : (req.processHeaderLines lines).getHeader key = none ↔
      ∀ line ∈ lines, ¬ LineNames line key := by
  rw [Option.eq_none_iff_forall_ne_some]
  simp only [ne_eq, getHeader_processHeaderLines hreq]
  constructor
  · intro h
    induction lines using List.reverseRecOn with
    | nil => exact nofun
    | append_singleton lines line ih =>
      have hline : ¬ LineNames line key := by
        rintro ⟨name, value, hheader, hname⟩
        exact h value ⟨lines, line, [], name, rfl, hheader, hname, nofun⟩
      simp only [LastNamed.concat_iff hline] at h
      intro l hl
      rcases List.mem_append.mp hl with hl | hl
      · exact ih h l hl
      · rwa [List.mem_singleton.mp hl]
  · rintro h value ⟨before, line, after, name, rfl, hheader, hname, -⟩
    exact h line (by simp) ⟨name, value, hheader, hname⟩

end HttpRequest

/-- Names are compared by an equivalence with which the hash agrees, so that a lookup finds the same
in any number of buckets; and whatever lines a request without headers is given, it takes those that
are headers, and under every name it has the value of the last of them with this name up to case. -/
theorem header_store :
    Equivalence (fun a b => caseInsensitiveEquality a b = true) ∧
    (∀ hasher a b, caseInsensitiveEquality a b = true →
      caseInsensitiveHash hasher a = caseInsensitiveHash hasher b) ∧
    (∀ hasher (buckets : UInt64) (m : HeaderMap) key, AssocMap.find (fun a b =>
        caseInsensitiveHash hasher a % buckets = caseInsensitiveHash hasher b % buckets &&
          caseInsensitiveEquality a b) m key = m.find key) ∧
    (∀ (req : HttpRequest) line,
      (req.processHeaderLine line).1 = true ↔ ∃ name value, IsHeaderLine line name value) ∧
    ∀ (req : HttpRequest) lines key,
      let req := HttpRequest.processHeaderLines { req with headers := [] } lines
      (∀ value, req.getHeader key = some value ↔ LastNamed lines key value) ∧
        (req.getHeader key = none ↔ ∀ line ∈ lines, ¬ LineNames line key) := by
  have hequality := isEquality_caseInsensitive
  refine ⟨⟨hequality.refl, hequality.symm _ _, hequality.trans _ _ _⟩,
    fun hasher a b h => caseInsensitiveHash_congr hasher h, fun hasher buckets m key => ?_,
    HttpRequest.processHeaderLine_iff, fun req lines key => ⟨fun value => ?_, ?_⟩⟩
  · refine AssocMap.find_bucket (fun a b h => ?_) m key
    rw [caseInsensitiveHash_congr hasher h]
  · exact HttpRequest.getHeader_processHeaderLines rfl lines key value
  · exact HttpRequest.getHeader_eq_none_iff rfl lines key

end CppEvent
