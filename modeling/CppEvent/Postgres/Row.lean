import CppEvent.Postgres.Params
import CppEvent.Postgres.Result

/-!
# Reading a row

`get_row` of `pg_result.hpp` into variables of any types that have a parser, and `pg_parser` on integral
types. A variable that may be empty keeps what it holds where the column is null, so a row is reported
exactly if such a variable held nothing (`getRow_reports_iff`). A parser of integers reads the longest
numeral at the front of a column and says nothing of what follows (`parse_whole_iff`).
-/

namespace CppEvent

/-- A `T` for which there is a `pg_parser<T>`, by its `parse`. -/
structure PgParser where
  Val : Type
  parse : Bytes → Int → Except Exn Val

/-- The parsers of `pg_conv.hpp`. -/
def PgType.parser (T : PgType) : PgParser where
  Val := T.Val
  parse := T.parse

/-- A variable that a value is read into, with what it holds. -/
inductive RowTarget where
  | plain (P : PgParser) (val : P.Val)
  | optional (P : PgParser) (val : Option P.Val)

namespace RowTarget

/-- `get_row` of one target: the target it leaves and how it ends. -/
def assign (val : PgValue) : RowTarget → RowTarget × Except Exn Unit
  | plain P old =>
      if val.isNull then
        (plain P old,
          .error (.runtimeError "pg_result get_row: assigning null to non-optional type"))
      else
        match P.parse val.ptr val.size with
        | .ok v => (plain P v, .ok ())
        | .error e => (plain P old, .error e)
  | optional P old =>
      if val.isNull then (optional P old, .ok ())
      else
        match P.parse val.ptr val.size with
        | .ok v => (optional P (some v), .ok ())
        | .error e => (optional P old, .error e)

end RowTarget

namespace PgResult

/-- `m_rows[row_index][VAL_INDEX]`; `none` past the end of either. -/
def value (r : PgResult) (rowIndex valIndex : Nat) : Option PgValue :=
  r.rows[rowIndex]?.bind (·[valIndex]?)

/-- `get_row` from a column on: the targets it leaves and how it ends; `none` where it reads a value that
is not there. -/
def getRow (r : PgResult) (rowIndex : Nat) :
    Nat → List RowTarget → Option (List RowTarget × Except Exn Unit)
  | _, [] => some ([], .ok ())
  | valIndex, t :: args =>
      match r.value rowIndex valIndex with
      | none => none
      | some val =>
          match t.assign val with
          | (t, .ok ()) => (getRow r rowIndex (valIndex + 1) args).map fun p => (t :: p.1, p.2)
          | (t, .error e) => some (t :: args, .error e)

end PgResult

/-! ## What a row is reported as -/

namespace RowTarget

/-- The target holds the parse of the column, or nothing where the column is null. -/
def Reports (val : PgValue) : RowTarget → Prop
  | plain P v => val.isNull = false ∧ P.parse val.ptr val.size = .ok v
  | optional _ none => val.isNull = true
  | optional P (some v) => val.isNull = false ∧ P.parse val.ptr val.size = .ok v

/-- The column can be read into the target. -/
def Readable (val : PgValue) : RowTarget → Prop
  | plain P _ => val.isNull = false ∧ ∃ v, P.parse val.ptr val.size = .ok v
  | optional P _ => val.isNull = false → ∃ v, P.parse val.ptr val.size = .ok v

/-- The target holds something and the column is null. -/
def Stale (val : PgValue) : RowTarget → Prop
  | plain _ _ => False
  | optional _ none => False
  | optional _ (some _) => val.isNull = true

/-- The target, emptied if it can be. -/
def fresh : RowTarget → RowTarget
  | plain P v => plain P v
  | optional P _ => optional P none

theorem assign_ok_iff (val : PgValue) (t : RowTarget) :
    (t.assign val).2 = .ok () ↔ t.Readable val := by
  cases t with
  | plain P old =>
    rw [assign, Readable]
    cases hnull : val.isNull <;> cases P.parse val.ptr val.size <;> simp
  | optional P old =>
    rw [assign, Readable]
    cases hnull : val.isNull <;> cases P.parse val.ptr val.size <;> simp

theorem reports_assign_iff {val : PgValue} {t : RowTarget} (h : t.Readable val) :
    (t.assign val).1.Reports val ↔ ¬ t.Stale val := by
  cases t with
  | plain P old =>
    obtain ⟨hnull, v, hv⟩ := h
    simp [assign, Stale, Reports, hnull, hv]
  | optional P old =>
    rw [assign]
    cases hnull : val.isNull with
    | false =>
      obtain ⟨v, hv⟩ := h hnull
      cases old <;> simp [Stale, Reports, hnull, hv]
    | true => cases old <;> simp [Stale, Reports, hnull]

theorem readable_fresh (val : PgValue) (t : RowTarget) : t.fresh.Readable val ↔ t.Readable val := by
  cases t <;> rfl

theorem assign_fresh {val : PgValue} {t : RowTarget} (h : t.Readable val) (hs : ¬ t.Stale val) :
    (t.fresh.assign val).1 = (t.assign val).1 := by
  cases t with
  | plain P old => rfl
  | optional P old =>
    cases old with
    | none => rfl
    | some v =>
      have hnull : val.isNull = false := by simpa [Stale] using hs
      obtain ⟨w, hw⟩ := h hnull
      simp [fresh, assign, hnull, hw]

end RowTarget

/-- `R` holds of every target and its column. -/
def AtColumns (R : PgValue → RowTarget → Prop) (row : List PgValue) (targets : List RowTarget) : Prop :=
  ∀ (k : Nat) val t, row[k]? = some val → targets[k]? = some t → R val t

theorem atColumns_nil (R : PgValue → RowTarget → Prop) (row : List PgValue) : AtColumns R row [] := by
  intro k val t _ ht
  simp at ht

theorem atColumns_cons (R : PgValue → RowTarget → Prop) (val : PgValue) (row : List PgValue)
    (t : RowTarget) (targets : List RowTarget) :
    AtColumns R (val :: row) (t :: targets) ↔ R val t ∧ AtColumns R row targets := by
  constructor
  · intro h
    exact ⟨h 0 val t rfl rfl, fun k val' t' hval ht => h (k + 1) val' t' hval ht⟩
  · rintro ⟨h, hrest⟩ k val' t' hval ht
    cases k with
    | zero =>
      obtain rfl : val = val' := Option.some.inj hval
      obtain rfl : t = t' := Option.some.inj ht
      exact h
    | succ k => exact hrest k val' t' hval ht

/-! ## One call -/

namespace PgResult

variable {r : PgResult} {rowIndex : Nat} {row : List PgValue}

/-- What `get_row` does with the values from some column on. -/
def assignAll : List PgValue → List RowTarget → List RowTarget × Except Exn Unit
  | val :: row, t :: args =>
      match t.assign val with
      | (t, .ok ()) => (t :: (assignAll row args).1, (assignAll row args).2)
      | (t, .error e) => (t :: args, .error e)
  | _, args => (args, .ok ())

theorem getRow_eq (hrow : r.rows[rowIndex]? = some row) (valIndex : Nat) {targets : List RowTarget}
    (hlen : valIndex + targets.length ≤ row.length) :
    r.getRow rowIndex valIndex targets = some (assignAll (row.drop valIndex) targets) := by
  induction targets generalizing valIndex with
  | nil => cases h : row.drop valIndex <;> simp [getRow, assignAll]
  | cons t args ih =>
    rw [List.length_cons] at hlen
    have hval : r.value rowIndex valIndex = some row[valIndex] := by
      rw [value, hrow, Option.bind_some, List.getElem?_eq_getElem (by omega)]
    rw [getRow, hval, List.drop_eq_getElem_cons (by omega), assignAll]
    simp only
    cases hassign : t.assign row[valIndex] with
    | mk t' e =>
      cases e with
      | error e => rfl
      | ok u => rw [ih (valIndex + 1) (by omega)]; rfl

theorem length_assignAll (row : List PgValue) (targets : List RowTarget) :
    (assignAll row targets).1.length = targets.length := by
  induction targets generalizing row with
  | nil => cases row <;> rfl
  | cons t args ih =>
    cases row with
    | nil => rfl
    | cons val row =>
      rw [assignAll]
      cases hassign : t.assign val with
      | mk t' e =>
        cases e with
        | error e => rfl
        | ok u => simp [ih]

theorem assignAll_ok_iff {targets : List RowTarget} (hlen : targets.length ≤ row.length) :
    (assignAll row targets).2 = .ok () ↔ AtColumns (fun val t => t.Readable val) row targets := by
  induction targets generalizing row with
  | nil => exact iff_of_true (by cases row <;> rfl) (atColumns_nil _ row)
  | cons t args ih =>
    cases row with
    | nil => simp at hlen
    | cons val row =>
      rw [atColumns_cons, ← RowTarget.assign_ok_iff, ← ih (by simpa using hlen), assignAll]
      cases hassign : t.assign val with
      | mk t' e => cases e <;> simp

theorem reports_assignAll_iff {targets : List RowTarget} (hlen : targets.length ≤ row.length)
    (h : AtColumns (fun val t => t.Readable val) row targets) :
    AtColumns (fun val t => t.Reports val) row (assignAll row targets).1 ↔
      AtColumns (fun val t => ¬ t.Stale val) row targets := by
  induction targets generalizing row with
  | nil =>
    refine iff_of_true ?_ (atColumns_nil _ row)
    cases row <;> exact atColumns_nil _ _
  | cons t args ih =>
    cases row with
    | nil => simp at hlen
    | cons val row =>
      obtain ⟨hreadable, hrest⟩ := (atColumns_cons _ _ _ _ _).mp h
      have hok := (RowTarget.assign_ok_iff val t).mpr hreadable
      have hreports := RowTarget.reports_assign_iff hreadable
      rw [atColumns_cons, ← hreports, ← ih (by simpa using hlen) hrest, assignAll]
      cases hassign : t.assign val with
      | mk t' e =>
        obtain rfl : e = .ok () := by rw [hassign] at hok; exact hok
        exact atColumns_cons _ _ _ _ _

theorem assignAll_fresh {targets : List RowTarget} (hlen : targets.length ≤ row.length)
    (h : AtColumns (fun val t => t.Readable val) row targets)
    (hs : AtColumns (fun val t => ¬ t.Stale val) row targets) :
    assignAll row (targets.map RowTarget.fresh) = assignAll row targets := by
  induction targets generalizing row with
  | nil => rfl
  | cons t args ih =>
    cases row with
    | nil => simp at hlen
    | cons val row =>
      obtain ⟨hreadable, hrest⟩ := (atColumns_cons _ _ _ _ _).mp h
      obtain ⟨hstale, hsrest⟩ := (atColumns_cons _ _ _ _ _).mp hs
      have hok := (RowTarget.assign_ok_iff val t).mpr hreadable
      have hok' := (RowTarget.assign_ok_iff val t.fresh).mpr ((t.readable_fresh val).mpr hreadable)
      have hsame := RowTarget.assign_fresh hreadable hstale
      have hboth : t.fresh.assign val = t.assign val := Prod.ext hsame (hok'.trans hok.symm)
      rw [List.map_cons, assignAll, assignAll, hboth, ih (by simpa using hlen) hrest hsrest]
      cases hassign : t.assign val with
      | mk t' e =>
        obtain rfl : e = .ok () := by rw [hassign] at hok; exact hok
        rfl

/-! ## Runs of calls -/

/-- Every call of `get_row`, for these rows one after the other and into the same targets, is one that
`P` holds of; an exception is caught and leaves the targets as they are. -/
def Along (r : PgResult) (P : Nat → List RowTarget → Prop) : List Nat → List RowTarget → Prop
  | [], _ => True
  | i :: rows, targets =>
      P i targets ∧ ∀ targets' e, r.getRow i 0 targets = some (targets', e) →
        Along r P rows targets'

/-- If the call returns, the targets report the row and are what empty ones would have become. -/
def ReportsRow (r : PgResult) (i : Nat) (targets : List RowTarget) : Prop :=
  ∀ targets', r.getRow i 0 targets = some (targets', .ok ()) →
    (∀ row, r.rows[i]? = some row → AtColumns (fun val t => t.Reports val) row targets') ∧
      r.getRow i 0 (targets.map RowTarget.fresh) = some (targets', .ok ())

/-- If the row can be read, no target holds something where the column is null. -/
def FreshForRow (r : PgResult) (i : Nat) (targets : List RowTarget) : Prop :=
  ∀ row, r.rows[i]? = some row → AtColumns (fun val t => t.Readable val) row targets →
    AtColumns (fun val t => ¬ t.Stale val) row targets

theorem reportsRow_iff {targets : List RowTarget} (hrow : r.rows[rowIndex]? = some row)
    (hlen : targets.length ≤ row.length) :
    r.ReportsRow rowIndex targets ↔ r.FreshForRow rowIndex targets := by
  have hget (ts : List RowTarget) (hts : ts.length = targets.length) :
      r.getRow rowIndex 0 ts = some (assignAll row ts) :=
    getRow_eq hrow 0 (by omega)
  constructor
  · intro h row' hrow' hreadable
    obtain rfl : row = row' := Option.some.inj (hrow.symm.trans hrow')
    have hok := (assignAll_ok_iff hlen).mpr hreadable
    obtain ⟨hreports, -⟩ := h (assignAll row targets).1 (by rw [hget targets rfl, ← hok])
    exact (reports_assignAll_iff hlen hreadable).mp (hreports row hrow)
  · intro h targets' hcall
    rw [hget targets rfl] at hcall
    have hall := Option.some.inj hcall
    have hreadable := (assignAll_ok_iff hlen).mp (by rw [hall])
    have hfresh := h row hrow hreadable
    constructor
    · intro row' hrow'
      obtain rfl : row = row' := Option.some.inj (hrow.symm.trans hrow')
      have hreports := (reports_assignAll_iff hlen hreadable).mpr hfresh
      rwa [hall] at hreports
    · rw [hget _ (List.length_map _), assignAll_fresh hlen hreadable hfresh, hall]

/-- Along any sequence of rows read into the same variables, all calls report their rows exactly if no
call finds a variable that still holds something where its column is null. -/
theorem getRow_reports_iff (r : PgResult) (rows : List Nat) (targets : List RowTarget)
    (hrange : ∀ i ∈ rows, ∃ row, r.rows[i]? = some row ∧ targets.length ≤ row.length) :
    r.Along r.ReportsRow rows targets ↔ r.Along r.FreshForRow rows targets := by
  induction rows generalizing targets with
  | nil => exact Iff.rfl
  | cons i rows ih =>
    obtain ⟨row, hrow, hlen⟩ := hrange i List.mem_cons_self
    refine and_congr (reportsRow_iff hrow hlen) (forall₂_congr fun targets' e => ?_)
    refine forall_congr' fun hcall => ih targets' fun j hj => ?_
    have hget := getRow_eq hrow 0 (show 0 + targets.length ≤ row.length by omega)
    rw [hget] at hcall
    have hall := Option.some.inj hcall
    have hsame : targets'.length = targets.length := by
      rw [← length_assignAll (row.drop 0) targets, hall]
    rw [hsame]
    exact hrange j (List.mem_cons_of_mem i hj)

/-- Two rows with a role, of which the second is null. -/
def roles : PgResult where
  cmdTag := []
  columns := []
  rows := [[{ ptr := ascii "member", size := 6 }], [{ ptr := [], size := -1 }]]
  type := .success

theorem getRow_reports_roles :
    roles.Along roles.ReportsRow [1, 0] [.optional PgType.string.parser none] ↔
      roles.Along roles.FreshForRow [1, 0] [.optional PgType.string.parser none] := by
  refine getRow_reports_iff roles [1, 0] _ fun i hi => ?_
  rcases List.mem_pair.mp hi with rfl | rfl
  · exact ⟨_, rfl, Nat.le_refl 1⟩
  · exact ⟨_, rfl, Nat.le_refl 1⟩

/-- After the first row the second is given its role. -/
theorem getRow_keeps_role :
    ¬ roles.Along roles.ReportsRow [0, 1] [.optional PgType.string.parser none] := by
  intro h
  have hsecond := (h.2 [.optional PgType.string.parser (some (ascii "member"))] (.ok ()) rfl).1
  have hreports := (hsecond _ rfl).1 _ rfl 0 _ _ rfl rfl
  exact absurd hreports.1 (by decide)

end PgResult

/-! ## Integers -/

namespace PgType

/-- The text is a decimal numeral of the value, which is in the range of the type. -/
def IsWhole (t : IntegralType) (text : Bytes) (v : Int) : Prop := Denotes 10 text v ∧ t.Holds v

/-- A numeral that the type can take, and then more. -/
def HasTail (t : IntegralType) (b : Bytes) : Prop := ∃ text rest v, b = text ++ rest ∧ rest ≠ [] ∧
  IsWhole t text v ∧ (t.isSigned ∨ text.head? ≠ some 45) ∧ Numeral.Stops (digit 10) rest

theorem parse_integral_iff {t : IntegralType} {ptr : Bytes} {size v : Int} :
    parse (.integral t) ptr size = .ok v ↔
      ∃ rest, fromCharsAs t (ptr.take size.toNat) = .ok v rest := by
  rw [parse]
  cases fromCharsAs t (ptr.take size.toNat) with
  | invalidArgument => simp
  | resultOutOfRange => simp
  | ok val rest =>
    constructor
    · intro h
      obtain rfl : val = v := Except.ok.inj h
      exact ⟨rest, rfl⟩
    · rintro ⟨rest', h⟩
      rw [(FromChars.ok.inj h).1]

/-- `pg_parser<T>::parse` returns only for a whole numeral, exactly where the text is not a numeral with
more behind it. -/
theorem parse_whole_iff (t : IntegralType) (ptr : Bytes) (size : Int) :
    ((∀ v : Int, parse (.integral t) ptr size = .ok v → IsWhole t (ptr.take size.toNat) v) ∧
      ((¬ ∃ v, IsWhole t (ptr.take size.toNat) v) →
        ∃ e, parse (.integral t) ptr size = .error e)) ↔
      ¬ HasTail t (ptr.take size.toNat) := by
  constructor
  · rintro ⟨h, -⟩ ⟨text, rest, v, hsplit, hne, ⟨hdenotes, hholds⟩, hsign, hstops⟩
    have hread := fromCharsAs_eq_ok_iff.mpr ⟨text, hsplit, hdenotes, hsign, hstops, hholds⟩
    obtain ⟨hwhole, -⟩ := h v (parse_integral_iff.mpr ⟨rest, hread⟩)
    rw [hsplit] at hwhole
    exact hne (hwhole.rest_eq_nil hdenotes hstops)
  · intro htail
    have hwhole : ∀ v : Int, parse (.integral t) ptr size = .ok v →
        IsWhole t (ptr.take size.toNat) v := fun v hv => by
      obtain ⟨rest, hread⟩ := parse_integral_iff.mp hv
      obtain ⟨text, hsplit, hdenotes, hsign, hstops, hholds⟩ := fromCharsAs_eq_ok_iff.mp hread
      by_cases hne : rest = []
      · rw [hsplit, hne, List.append_nil]
        exact ⟨hdenotes, hholds⟩
      · exact absurd ⟨text, rest, v, hsplit, hne, ⟨hdenotes, hholds⟩, hsign, hstops⟩ htail
    refine ⟨hwhole, fun hnone => ?_⟩
    cases hparse : parse (.integral t) ptr size with
    | error e => exact ⟨e, rfl⟩
    | ok v => exact absurd ⟨v, hwhole v hparse⟩ hnone

/-- An `int` is read from the front of a number with a fraction. -/
theorem parse_reads_prefix : ¬ ((∀ v : Int, parse (.integral .int) (ascii "12.75") 5 = .ok v →
    IsWhole .int ((ascii "12.75").take (5 : Int).toNat) v) ∧
      ((¬ ∃ v, IsWhole .int ((ascii "12.75").take (5 : Int).toNat) v) →
        ∃ e, parse (.integral .int) (ascii "12.75") 5 = .error e)) := by
  rintro ⟨h, -⟩
  obtain ⟨hdenotes, -⟩ := h 12 rfl
  have hpoint := hdenotes.isSome_of_mem_tail 46 (by decide)
  exact absurd hpoint (by decide)

end PgType

end CppEvent
