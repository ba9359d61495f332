import CppEvent.Base.Util

/-!
# `pg_result`

The results of `pg_result.cpp`, and the two decoders of `populate_result`. A pointer into the data
of a message is kept as the bytes from it to the end of the data, so that a read or a step past the
end is visible (`none`).
-/

namespace CppEvent

inductive ResultType where
  | pending
  | success
  | suspended
  | error
  deriving DecidableEq, Repr

/-- `pg_column`; `code` is a `format_code`, cast from any `uint16_t`. -/
structure PgColumn where
  name : Bytes
  code : Nat
  deriving DecidableEq, Repr

structure PgValue where
  ptr : Bytes
  size : Int
  deriving DecidableEq, Repr

def PgValue.isNull (v : PgValue) : Bool := v.size < 0

/-- `pg_result`, less the arrays that its views point into. They live as long as the result does, but
for the array of a row description, which `set_desc_data` replaces when a second one comes. -/
structure PgResult where
  cmdTag : Bytes
  columns : List PgColumn
  rows : List (List PgValue)
  type : ResultType
  deriving DecidableEq, Repr

namespace PgResult

/-- `pg_result{}`. -/
def empty : PgResult where
  cmdTag := []
  columns := []
  rows := []
  type := .pending

def setError (r : PgResult) : PgResult := { r with type := .error }

def setSuspended (r : PgResult) : PgResult := { r with type := .suspended }

def addColumn (r : PgResult) (col : PgColumn) : PgResult :=
  { r with columns := r.columns ++ [col] }

def addRow (r : PgResult) (row : List PgValue) : PgResult := { r with rows := r.rows ++ [row] }

def setCommandTag (r : PgResult) (tag : Bytes) : PgResult :=
  { r with cmdTag := tag, type := .success }

theorem foldl_addColumn (cols : List PgColumn) (r : PgResult) :
    cols.foldl addColumn r = { r with columns := r.columns ++ cols } := by
  induction cols generalizing r with
  | nil => rw [List.foldl_nil, List.append_nil]
  | cons col cols ih =>
    rw [List.foldl_cons, ih, addColumn, List.append_assoc, List.singleton_append]

end PgResult

/-- `std::vector<pg_result>` with at least one element: the last one apart from those before it. -/
structure PgResults where
  done : List PgResult
  back : PgResult
  deriving DecidableEq, Repr

/-- `results.push_back(pg_result{})`, after a change to the last result. -/
def PgResults.push (r : PgResults) (back : PgResult) : PgResults where
  done := r.done ++ [back]
  back := .empty

/-! ## Decoding -/

/-- `read_u16_be(data_p); data_p += 2;` -/
def takeU16 : Bytes → Option (Nat × Bytes)
  | b₀ :: b₁ :: p => some (readU16Be b₀ b₁, p)
  | _ => none

/-- `read_u32_be(data_p); data_p += 4;` -/
def takeU32 : Bytes → Option (Nat × Bytes)
  | b₀ :: b₁ :: b₂ :: b₃ :: p => some (readU32Be b₀ b₁ b₂ b₃, p)
  | _ => none

/-- `data_p += n`. -/
def advance (n : Nat) (p : Bytes) : Option Bytes :=
  if n ≤ p.length then some (p.drop n) else none

/-- The text up to a NUL, and what follows the NUL. -/
def takeText : Bytes → Option (Bytes × Bytes)
  | [] => none
  | c :: cs => if c = 0 then some ([], cs) else (takeText cs).map fun r => (c :: r.1, r.2)

/-- `static_cast<int32_t>`. -/
def toInt32 (n : Nat) : Int := if n < 2 ^ 31 then n else n - 2 ^ 32

/-- The loop over the columns of a row description. -/
def decodeColumns : Nat → Bytes → Option (List PgColumn)
  | 0, _ => some []
  | n + 1, p => do
      let (name, p) ← takeText p
      let p ← advance (4 * 4) p
      let (code, p) ← takeU16 p
      let cols ← decodeColumns n p
      some ({ name := name, code := code } :: cols)

/-- The loop over the values of a data row. -/
def decodeValues : Nat → Bytes → Option (List PgValue)
  | 0, _ => some []
  | n + 1, p => do
      let (len, p) ← takeU32 p
      let next ← if 0 < toInt32 len then advance (toInt32 len).toNat p else some p
      let row ← decodeValues n next
      some ({ ptr := p, size := toInt32 len } :: row)

def decodeRowDescription (data : Bytes) : Option (List PgColumn) := do
  let (numCols, p) ← takeU16 data
  decodeColumns numCols p

def decodeDataRow (data : Bytes) : Option (List PgValue) := do
  let (numCols, p) ← takeU16 data
  decodeValues numCols p

/-! ### Encoded values -/

theorem takeU32_writeU32Be (n : Nat) (p : Bytes) :
    takeU32 (writeU32Be n ++ p) = some (n % 2 ^ 32, p) := by
  obtain ⟨b₀, b₁, b₂, b₃, hwrite, hread⟩ := writeU32Be_eq n
  rw [hwrite, ← hread]
  rfl

theorem decodeValues_text {n : Nat} {text p : Bytes} {row : List PgValue}
    (hlt : text.length < 2 ^ 31) (hrow : decodeValues n p = some row) :
    decodeValues (n + 1) (writeU32Be text.length ++ text ++ p) =
      some ({ ptr := text ++ p, size := text.length } :: row) := by
  have hlen : toInt32 (text.length % 2 ^ 32) = text.length := by
    rw [Nat.mod_eq_of_lt (by omega), toInt32, if_pos hlt]
  rw [decodeValues, List.append_assoc, takeU32_writeU32Be]
  simp only [Option.bind_eq_bind, Option.bind_some, hlen, Int.toNat_natCast]
  by_cases hpos : (0 : Int) < text.length
  · have hnext : advance text.length (text ++ p) = some p := by
      rw [advance, if_pos (by rw [List.length_append]; omega), List.drop_left]
    simp only [if_pos hpos, hnext, Option.bind_some, hrow]
  · obtain rfl : text = [] := List.eq_nil_of_length_eq_zero (by omega)
    simp only [if_neg hpos, List.nil_append, Option.bind_some, hrow]

theorem decodeValues_null {n : Nat} {p : Bytes} {row : List PgValue}
    (hrow : decodeValues n p = some row) :
    decodeValues (n + 1) (writeU32Be (2 ^ 32 - 1) ++ p) = some ({ ptr := p, size := -1 } :: row) := by
  have hlen : toInt32 ((2 ^ 32 - 1) % 2 ^ 32) = -1 := by decide
  have hneg : ¬ (0 : Int) < -1 := by omega
  rw [decodeValues, takeU32_writeU32Be]
  simp only [Option.bind_eq_bind, Option.bind_some, hlen, if_neg hneg, hrow]

end CppEvent
