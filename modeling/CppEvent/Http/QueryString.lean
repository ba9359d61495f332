import CppEvent.Http.Util

/-!
# The parameters of a query

`retrieve_params` against the grammar of a query (`QueryString.denotes`): pieces between ampersands, of
which those with a key and a value count. The loop carries the last key it saw into the next piece, and
takes a further equals sign in a value for the end of another key. Where neither shows, the two give the
same multimap (`retrieveParams_eq_iff`).
-/

namespace CppEvent

abbrev ampersand : Byte := 38
abbrev equalsSign : Byte := 61

namespace QueryString

/-! ## The grammar -/

def pieces (s : Bytes) : List Bytes := s.splitOn ampersand

/-- A piece with something on both sides of its first equals sign. -/
def pair (piece : Bytes) : Option (Bytes × Bytes) :=
  match piece.dropWhile (· != equalsSign) with
  | [] => none
  | _ :: value =>
      let key := piece.takeWhile (· != equalsSign)
      if key = [] ∨ value = [] then none else some (key, value)

/-- The pairs that a query stands for, in the order of appearance. -/
def denotes (s : Bytes) : List (Bytes × Bytes) := (pieces s).filterMap pair

/-- The values of a key in a multimap that is given by its pairs in the order of insertion. -/
def values (m : List (Bytes × Bytes)) (key : Bytes) : List Bytes :=
  (m.filter (·.1 == key)).map Prod.snd

def SameMultimap (m m' : List (Bytes × Bytes)) : Prop := ∀ key, values m key = values m' key

/-! ## Where the loop agrees with it -/

/-- What follows the last equals sign, or all. -/
def lastField (piece : Bytes) : Bytes := piece.rtakeWhile (· != equalsSign)

/-- An equals sign in the piece follows another byte. -/
def NamesKey (piece : Bytes) : Prop := equalsSign ∈ piece.dropWhile (· == equalsSign)

instance (piece : Bytes) : Decidable (NamesKey piece) := inferInstanceAs (Decidable (_ ∈ _))

/-- A piece that the loop reads as the grammar does, wherever `known` keys may come from: a value has no
equals sign, and a piece that is not a pair ends in one or comes before any key. -/
def Plain (known : Prop) (piece : Bytes) : Prop :=
  match pair piece with
  | some (_, value) => equalsSign ∉ value
  | none => lastField piece = [] ∨ ¬ (known ∨ NamesKey piece)

def Clear (s : Bytes) : Prop := ∀ before piece after, pieces s = before ++ piece :: after →
  Plain (∃ p ∈ before, NamesKey p) piece

/-! ## The loop, a piece at a time -/

/-- The loop along one piece: the key and the text since the last separator at its end. -/
def scan : Bytes → Bytes → Bytes → Bytes × Bytes
  | key, cur, [] => (key, cur)
  | key, cur, c :: rest =>
      if c = equalsSign then
        if cur ≠ [] then scan cur [] rest else scan key [] rest
      else scan key (cur ++ [c]) rest

def emit (p : Bytes × Bytes) : List (Bytes × Bytes) := if p.2 ≠ [] ∧ p.1 ≠ [] then [p] else []

def retrievePieces : Bytes → Bytes → List Bytes → List (Bytes × Bytes)
  | _, _, [] => []
  | key, cur, piece :: rest =>
      emit (scan key cur piece) ++ retrievePieces (scan key cur piece).1 [] rest

theorem pieces_cons (c : Byte) (s : Bytes) : pieces (c :: s) =
    if c = ampersand then [] :: pieces s else (pieces s).modifyHead (List.cons c) := by
  rw [pieces, List.splitOn_cons_eq_if_modifyHead]
  simp only [beq_iff_eq]
  rfl

theorem retrieveFrom_eq (key cur s : Bytes) :
    retrieveFrom key cur s = retrievePieces key cur (pieces s) := by
  induction s generalizing key cur with
  | nil =>
    show retrieveFrom key cur [] = emit (key, cur) ++ []
    rw [retrieveFrom, emit, List.append_nil]
  | cons c s ih =>
    rw [pieces_cons, retrieveFrom]
    by_cases hamp : c = ampersand
    · rw [if_pos hamp, if_pos hamp, ih]
      show _ = emit (key, cur) ++ retrievePieces key [] (pieces s)
      rw [emit]
      split <;> rfl
    · rw [if_neg hamp, if_neg hamp]
      -- the head of the remaining pieces is the rest of this one
      have hhead (key' cur' : Bytes) (hscan : ∀ p, scan key cur (c :: p) = scan key' cur' p) :
          retrieveFrom key' cur' s =
            retrievePieces key cur ((pieces s).modifyHead (List.cons c)) := by
        obtain ⟨p, ps, hp⟩ := List.exists_cons_of_ne_nil (List.splitOn_ne_nil ampersand s)
        rw [ih, pieces, hp, List.modifyHead_cons, retrievePieces, retrievePieces, hscan]
      by_cases heq : c = equalsSign
      · rw [if_pos heq]
        by_cases hcur : cur ≠ []
        · rw [if_pos hcur]
          exact hhead cur [] fun p => by rw [scan, if_pos heq, if_pos hcur]
        · rw [if_neg hcur]
          exact hhead key [] fun p => by rw [scan, if_pos heq, if_neg hcur]
      · rw [if_neg heq]
        exact hhead key _ fun p => by rw [scan, if_neg heq]

theorem equalsSign_not_mem_scan {key cur : Bytes} (hcur : equalsSign ∉ cur) (piece : Bytes) :
    equalsSign ∉ (scan key cur piece).2 := by
  induction piece generalizing key cur with
  | nil => exact hcur
  | cons c piece ih =>
    rw [scan]
    split
    · split
      · exact ih List.not_mem_nil
      · exact ih List.not_mem_nil
    · rename_i hc
      refine ih ?_
      rw [List.mem_append, List.mem_singleton, not_or]
      exact ⟨hcur, Ne.symm hc⟩

theorem scan_concat (key cur piece : Bytes) (c : Byte) : scan key cur (piece ++ [c]) =
    if c = equalsSign then
      if (scan key cur piece).2 ≠ [] then ((scan key cur piece).2, [])
      else ((scan key cur piece).1, [])
    else ((scan key cur piece).1, (scan key cur piece).2 ++ [c]) := by
  induction piece generalizing key cur with
  | nil => rfl
  | cons b piece ih =>
    rw [List.cons_append, scan, scan]
    split
    · split
      · exact ih cur []
      · exact ih key []
    · exact ih key (cur ++ [b])

theorem scan_snd (key piece : Bytes) : (scan key [] piece).2 = lastField piece := by
  rw [lastField]
  induction piece using List.reverseRecOn with
  | nil => rfl
  | append_singleton piece c ih =>
    rw [scan_concat, List.rtakeWhile_concat]
    by_cases hc : c = equalsSign
    · have hstop : ¬ (c != equalsSign) = true := by simp [hc]
      rw [if_pos hc, if_neg hstop]
      split <;> rfl
    · have hgoes : (c != equalsSign) = true := by simpa using hc
      rw [if_neg hc, if_pos hgoes, ih]

theorem namesKey_append {cur : Bytes} (hcur : equalsSign ∉ cur) (hne : cur ≠ []) (rest : Bytes) :
    NamesKey (cur ++ rest) ↔ equalsSign ∈ rest := by
  cases cur with
  | nil => exact absurd rfl hne
  | cons b cur =>
    have hb : b ≠ equalsSign := fun h => hcur (by simp [h])
    rw [NamesKey, List.cons_append, List.dropWhile_cons_of_neg (by simpa using hb),
      ← List.cons_append, List.mem_append]
    exact or_iff_right hcur

theorem scan_fst_ne_nil (key : Bytes) {cur : Bytes} (hcur : equalsSign ∉ cur) (piece : Bytes) :
    (scan key cur piece).1 ≠ [] ↔ (key ≠ [] ∨ NamesKey (cur ++ piece)) := by
  induction piece generalizing key cur with
  | nil =>
    have hnone : ¬ NamesKey (cur ++ []) := by
      rw [NamesKey, List.append_nil]
      exact fun h => hcur (List.dropWhile_subset _ h)
    rw [or_iff_left hnone]
    rfl
  | cons c piece ih =>
    rw [scan]
    by_cases hc : c = equalsSign
    · rw [if_pos hc]
      by_cases hne : cur ≠ []
      · have hnames : NamesKey (cur ++ c :: piece) :=
          (namesKey_append hcur hne _).mpr (by simp [hc])
        rw [if_pos hne]
        exact (ih cur List.not_mem_nil).trans (iff_of_true (.inl hne) (.inr hnames))
      · obtain rfl : cur = [] := not_not.mp hne
        have hsame : NamesKey ([] ++ c :: piece) ↔ NamesKey ([] ++ piece) := by
          simp [NamesKey, hc]
        rw [if_neg hne, hsame]
        exact ih key List.not_mem_nil
    · have hmem : equalsSign ∉ cur ++ [c] := by
        rw [List.mem_append, List.mem_singleton, not_or]
        exact ⟨hcur, Ne.symm hc⟩
      rw [if_neg hc, List.append_cons cur c piece]
      exact ih key hmem

theorem scan_of_not_mem {cur value : Bytes} (key : Bytes) (h : equalsSign ∉ value) :
    scan key cur value = (key, cur ++ value) := by
  induction value generalizing cur with
  | nil => rw [scan, List.append_nil]
  | cons c value ih =>
    rw [List.mem_cons, not_or] at h
    rw [scan, if_neg (Ne.symm h.1), ih h.2, List.append_assoc, List.singleton_append]

theorem scan_pair {key' cur : Bytes} (key : Bytes) (hkey : equalsSign ∉ key') (hne : cur ++ key' ≠ [])
    {value : Bytes} (hvalue : equalsSign ∉ value) :
    scan key cur (key' ++ equalsSign :: value) = (cur ++ key', value) := by
  induction key' generalizing cur with
  | nil =>
    rw [List.append_nil] at hne
    rw [List.nil_append, scan, if_pos rfl, if_pos hne, scan_of_not_mem _ hvalue, List.append_nil,
      List.nil_append]
  | cons c key' ih =>
    rw [List.mem_cons, not_or] at hkey
    rw [List.cons_append, scan, if_neg (Ne.symm hkey.1), ih hkey.2 (by simp), List.append_assoc,
      List.singleton_append]

theorem pair_eq_some {piece key value : Bytes} (h : pair piece = some (key, value)) :
    piece = key ++ equalsSign :: value ∧ equalsSign ∉ key ∧ key ≠ [] ∧ value ≠ [] := by
  have hsplit := List.takeWhile_append_dropWhile (p := (· != equalsSign)) (l := piece)
  rw [pair] at h
  cases hd : piece.dropWhile (· != equalsSign) with
  | nil => simp [hd] at h
  | cons c rest =>
    have hc : c = equalsSign := by
      have hhead := List.head_dropWhile_not (· != equalsSign) (l := piece) (by simp [hd])
      simpa [hd] using hhead
    simp only [hd] at h
    split at h
    · cases h
    · rename_i hboth
      rw [not_or] at hboth
      obtain ⟨rfl, rfl⟩ := Prod.mk.inj (Option.some.inj h)
      refine ⟨?_, fun hm => ?_, hboth.1, hboth.2⟩
      · rw [hd, hc] at hsplit
        exact hsplit.symm
      · simpa using List.mem_takeWhile_imp hm

/-- What the loop makes of a piece is what the grammar does exactly if the piece is plain. -/
theorem emit_scan_iff (key piece : Bytes) :
    emit (scan key [] piece) = (pair piece).toList ↔ Plain (key ≠ []) piece := by
  rw [Plain]
  cases hpair : pair piece with
  | none =>
    have hknown := scan_fst_ne_nil key (List.not_mem_nil (a := equalsSign)) piece
    rw [List.nil_append] at hknown
    rw [← hknown, ← scan_snd key, emit]
    simp only [Option.toList_none]
    split
    · rename_i h
      simpa using h
    · rename_i h
      simpa [or_iff_not_imp_left] using h
  | some p =>
    obtain ⟨key', value⟩ := p
    obtain ⟨rfl, hkey, hne, hvalue⟩ := pair_eq_some hpair
    simp only [Option.toList_some]
    constructor
    · intro hemit hmem
      rw [emit] at hemit
      split at hemit
      · have hlast : equalsSign ∉ (scan key [] (key' ++ equalsSign :: value)).2 :=
          equalsSign_not_mem_scan List.not_mem_nil _
        rw [List.cons.inj hemit |>.1] at hlast
        exact hlast hmem
      · cases hemit
    · intro hmem
      rw [scan_pair key hkey (by simpa using hne) hmem, List.nil_append, emit, if_pos ⟨hvalue, hne⟩]

/-! ## A whole query -/

/-- The pieces are plain where they stand, after `known` keys. -/
def ClearPieces (known : Prop) (ps : List Bytes) : Prop := ∀ before piece after,
  ps = before ++ piece :: after → Plain (known ∨ ∃ p ∈ before, NamesKey p) piece

theorem clearPieces_cons (key piece : Bytes) (ps : List Bytes) :
    ClearPieces (key ≠ []) (piece :: ps) ↔
      Plain (key ≠ []) piece ∧ ClearPieces ((scan key [] piece).1 ≠ []) ps := by
  have hknown := scan_fst_ne_nil key (List.not_mem_nil (a := equalsSign)) piece
  rw [List.nil_append] at hknown
  constructor
  · intro h
    refine ⟨by simpa using h [] piece ps rfl, fun before p after hps => ?_⟩
    have := h (piece :: before) p after (by rw [hps, List.cons_append])
    rwa [List.exists_mem_cons_iff, ← or_assoc, ← hknown] at this
  · rintro ⟨hplain, hrest⟩ before p after hps
    cases before with
    | nil =>
      obtain ⟨rfl, rfl⟩ := List.cons.inj hps
      simpa using hplain
    | cons q before =>
      obtain ⟨rfl, hps'⟩ := List.cons.inj hps
      have := hrest before p after hps'
      rwa [List.exists_mem_cons_iff, ← or_assoc, ← hknown]

theorem filterMap_pair_cons (piece : Bytes) (ps : List Bytes) :
    (piece :: ps).filterMap pair = (pair piece).toList ++ ps.filterMap pair := by
  cases h : pair piece with
  | none => rw [List.filterMap_cons_none h]; rfl
  | some p => rw [List.filterMap_cons_some h]; rfl

theorem retrievePieces_of_clear {key : Bytes} {ps : List Bytes} (h : ClearPieces (key ≠ []) ps) :
    retrievePieces key [] ps = ps.filterMap pair := by
  induction ps generalizing key with
  | nil => rfl
  | cons piece ps ih =>
    obtain ⟨hplain, hrest⟩ := (clearPieces_cons key piece ps).mp h
    rw [retrievePieces, (emit_scan_iff key piece).mpr hplain, ih hrest, filterMap_pair_cons]

/-- Where no value has an equals sign, the loop finds every pair of the grammar. -/
theorem length_pair_le (key : Bytes) {piece : Bytes}
    (h : ∀ p, pair piece = some p → equalsSign ∉ p.2) :
    (pair piece).toList.length ≤ (emit (scan key [] piece)).length := by
  cases hpair : pair piece with
  | none => exact Nat.zero_le _
  | some p =>
    have hplain : Plain (key ≠ []) piece := by
      rw [Plain, hpair]
      exact h p hpair
    rw [(emit_scan_iff key piece).mpr hplain, hpair]

theorem length_filterMap_le (key : Bytes) {ps : List Bytes}
    (h : ∀ piece ∈ ps, ∀ p, pair piece = some p → equalsSign ∉ p.2) :
    (ps.filterMap pair).length ≤ (retrievePieces key [] ps).length := by
  induction ps generalizing key with
  | nil => exact Nat.le_refl _
  | cons piece ps ih =>
    have hpiece := length_pair_le key (h piece List.mem_cons_self)
    have hrest := ih (scan key [] piece).1 fun q hq => h q (List.mem_cons_of_mem _ hq)
    rw [filterMap_pair_cons, retrievePieces, List.length_append, List.length_append]
    omega

theorem clear_of_length {key : Bytes} {ps : List Bytes}
    (h : ∀ piece ∈ ps, ∀ p, pair piece = some p → equalsSign ∉ p.2)
    (hlen : (retrievePieces key [] ps).length ≤ (ps.filterMap pair).length) :
    ClearPieces (key ≠ []) ps := by
  induction ps generalizing key with
  | nil =>
    intro before piece after hps
    simp at hps
  | cons piece ps ih =>
    have hpiece := length_pair_le key (h piece List.mem_cons_self)
    have hrest := length_filterMap_le (scan key [] piece).1 fun q hq =>
      h q (List.mem_cons_of_mem _ hq)
    rw [filterMap_pair_cons, retrievePieces, List.length_append, List.length_append] at hlen
    refine (clearPieces_cons key piece ps).mpr
      ⟨?_, ih (fun q hq => h q (List.mem_cons_of_mem _ hq)) (by omega)⟩
    rw [← emit_scan_iff]
    cases hpair : pair piece with
    | none =>
      rw [hpair] at hlen
      simp only [Option.toList_none, List.length_nil] at hlen
      exact List.eq_nil_of_length_eq_zero (by omega)
    | some p =>
      have hplain : Plain (key ≠ []) piece := by
        rw [Plain, hpair]
        exact h piece List.mem_cons_self p hpair
      rw [(emit_scan_iff key piece).mpr hplain, hpair]

theorem count_values (m : List (Bytes × Bytes)) (p : Bytes × Bytes) :
    (values m p.1).count p.2 = m.count p := by
  induction m with
  | nil => rfl
  | cons q m ih =>
    rw [values] at ih ⊢
    by_cases hkey : q.1 = p.1
    · rw [List.filter_cons_of_pos (by simpa using hkey), List.map_cons, List.count_cons, ih,
        List.count_cons]
      congr 1
      have hboth : q = p ↔ q.2 = p.2 := by
        rw [Prod.ext_iff]
        exact and_iff_right hkey
      simp [hboth]
    · have hne : q ≠ p := fun h => hkey (by rw [h])
      rw [List.filter_cons_of_neg (by simpa using hkey), ih, List.count_cons_of_ne hne]

theorem SameMultimap.perm {m m' : List (Bytes × Bytes)} (h : SameMultimap m m') : m.Perm m' := by
  rw [List.perm_iff_count]
  intro p
  rw [← count_values, ← count_values, h p.1]

theorem value_of_mem_retrievePieces {key : Bytes} {ps : List Bytes} {p : Bytes × Bytes}
    (h : p ∈ retrievePieces key [] ps) : equalsSign ∉ p.2 := by
  induction ps generalizing key with
  | nil => cases h
  | cons piece ps ih =>
    rw [retrievePieces, List.mem_append, emit] at h
    rcases h with h | h
    · split at h
      · rw [List.mem_singleton.mp h]
        exact equalsSign_not_mem_scan List.not_mem_nil piece
      · cases h
    · exact ih h

theorem clear_iff (s : Bytes) : Clear s ↔ ClearPieces (([] : Bytes) ≠ []) (pieces s) := by
  simp [Clear, ClearPieces]

end QueryString

open QueryString

/-- `retrieve_params` gives the multimap of the query's pairs exactly if all its pieces are plain. -/
theorem retrieveParams_eq_iff (s : Bytes) :
    SameMultimap (retrieveParams s) (denotes s) ↔ Clear s := by
  rw [retrieveParams, retrieveFrom_eq, denotes, clear_iff]
  constructor
  · intro hsame
    refine clear_of_length (fun piece hpiece p hp => ?_) hsame.perm.length_eq.le
    exact value_of_mem_retrievePieces
      (hsame.perm.mem_iff.mpr (List.mem_filterMap.mpr ⟨piece, hpiece, hp⟩))
  · intro hclear key
    rw [retrievePieces_of_clear hclear]

/-- A piece without a key takes the key of the piece before it. -/
theorem retrieveParams_carries :
    ¬ SameMultimap (retrieveParams (ascii "a=1&b")) (denotes (ascii "a=1&b")) := by
  intro h
  exact absurd (h (ascii "a")) (by decide)

end CppEvent
