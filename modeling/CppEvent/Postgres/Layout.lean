import CppEvent.Postgres.Receive

/-!
# Rows inside their messages

The layout of the payloads that `populate_result` decodes: a count, and so many columns or values. The
decoders know no end of the payload; they stay inside of it exactly if it has this layout
(`decodeColumns_iff`, `decodeValues_iff`), and `populate_result` throws on no other
(`populateResult_inside_iff`).
-/

namespace CppEvent

open Coroutine

/-! ## The layout -/

/-- A column of a row description: a name up to a NUL, what is stepped over, and the format. -/
structure ColumnField where
  name : Bytes
  stepped : Bytes
  code : Nat
  nul_not_mem : 0 ∉ name
  length_stepped : stepped.length = 4 * 4
  code_lt : code < 2 ^ 16

/-- A value of a data row. A negative length has no bytes. -/
structure ValueField where
  length : Nat
  body : Bytes
  length_lt : length < 2 ^ 32
  length_body : body.length = (toInt32 length).toNat

namespace ColumnField

def wire (f : ColumnField) : Bytes := f.name ++ 0 :: (f.stepped ++ writeU16Be f.code)

def column (f : ColumnField) : PgColumn := ⟨f.name, f.code⟩

end ColumnField

namespace ValueField

def wire (f : ValueField) : Bytes := writeU32Be f.length ++ f.body

/-- The values of these fields, with `rest` behind them. -/
def values : List ValueField → Bytes → List PgValue
  | [], _ => []
  | f :: fs, rest => ⟨f.body ++ (fs.flatMap wire ++ rest), toInt32 f.length⟩ :: values fs rest

end ValueField

/-- The payload has the layout of its type: as many fields as it counts, wholly inside of it. -/
def RowFits (type : ResponseType) (payload : Bytes) : Prop :=
  match type with
  | .rowDescription => ∃ (fields : List ColumnField) (rest : Bytes), fields.length < 2 ^ 16 ∧
      payload = writeU16Be fields.length ++ (fields.flatMap ColumnField.wire ++ rest)
  | .dataRow => ∃ (fields : List ValueField) (rest : Bytes), fields.length < 2 ^ 16 ∧
      payload = writeU16Be fields.length ++ (fields.flatMap ValueField.wire ++ rest)
  | _ => True

/-! ## The steps of the decoders -/

theorem writeU16Be_readU16Be (b₀ b₁ : Byte) : writeU16Be (readU16Be b₀ b₁) = [b₀, b₁] := by
  have h₁ := b₁.toNat_lt
  have hhigh : readU16Be b₀ b₁ / 2 ^ 8 = b₀.toNat := by
    rw [readU16Be]
    omega
  have hlow : readU16Be b₀ b₁ % 2 ^ 8 = b₁.toNat := by
    rw [readU16Be]
    omega
  have hbyte : UInt8.ofNat (readU16Be b₀ b₁) = b₁ := by
    apply UInt8.toNat_inj.mp
    rw [UInt8.toNat_ofNat', hlow]
  rw [writeU16Be, hhigh, UInt8.ofNat_toNat, hbyte]

theorem writeU16Be_add (m n : Nat) : writeU16Be (m * 2 ^ 16 + n) = writeU16Be n := by
  rw [writeU16Be, writeU16Be]
  congr 1
  · apply UInt8.toNat_inj.mp
    rw [UInt8.toNat_ofNat', UInt8.toNat_ofNat']
    omega
  · congr 1
    apply UInt8.toNat_inj.mp
    rw [UInt8.toNat_ofNat', UInt8.toNat_ofNat']
    omega

theorem writeU32Be_readU32Be (b₀ b₁ b₂ b₃ : Byte) :
    writeU32Be (readU32Be b₀ b₁ b₂ b₃) = [b₀, b₁, b₂, b₃] := by
  have hlow := readU16Be_lt b₂ b₃
  have hhigh : readU32Be b₀ b₁ b₂ b₃ / 2 ^ 16 = readU16Be b₀ b₁ := by
    rw [readU32Be]
    omega
  rw [writeU32Be, hhigh, writeU16Be_readU16Be, readU32Be, writeU16Be_add, writeU16Be_readU16Be]
  rfl

theorem takeU16_eq_some_iff {p q : Bytes} {n : Nat} :
    takeU16 p = some (n, q) ↔ n < 2 ^ 16 ∧ p = writeU16Be n ++ q := by
  constructor
  · intro h
    match p, h with
    | b₀ :: b₁ :: p, h =>
      obtain ⟨rfl, rfl⟩ := Prod.mk.inj (Option.some.inj h)
      exact ⟨readU16Be_lt b₀ b₁, by rw [writeU16Be_readU16Be]; rfl⟩
  · rintro ⟨hlt, rfl⟩
    show some (readU16Be _ _, q) = _
    rw [readU16Be_writeU16Be, Nat.mod_eq_of_lt hlt]

theorem takeU32_eq_some_iff {p q : Bytes} {n : Nat} :
    takeU32 p = some (n, q) ↔ n < 2 ^ 32 ∧ p = writeU32Be n ++ q := by
  constructor
  · intro h
    match p, h with
    | b₀ :: b₁ :: b₂ :: b₃ :: p, h =>
      obtain ⟨rfl, rfl⟩ := Prod.mk.inj (Option.some.inj h)
      exact ⟨readU32Be_lt b₀ b₁ b₂ b₃, by rw [writeU32Be_readU32Be]; rfl⟩
  · rintro ⟨hlt, rfl⟩
    rw [takeU32_writeU32Be, Nat.mod_eq_of_lt hlt]

theorem advance_eq_some_iff {n : Nat} {p q : Bytes} :
    advance n p = some q ↔ ∃ stepped, stepped.length = n ∧ p = stepped ++ q := by
  rw [advance]
  constructor
  · intro h
    split at h
    · obtain rfl := Option.some.inj h
      exact ⟨p.take n, by rw [List.length_take]; omega, (List.take_append_drop n p).symm⟩
    · cases h
  · rintro ⟨stepped, rfl, rfl⟩
    rw [if_pos (by rw [List.length_append]; omega), List.drop_left]

theorem takeText_eq_some_iff {p name q : Bytes} :
    takeText p = some (name, q) ↔ 0 ∉ name ∧ p = name ++ 0 :: q := by
  constructor
  · intro h
    induction p generalizing name with
    | nil => cases h
    | cons c cs ih =>
      rw [takeText] at h
      split at h
      · obtain ⟨rfl, rfl⟩ := Prod.mk.inj (Option.some.inj h)
        exact ⟨List.not_mem_nil, by simp [*]⟩
      · rename_i hc
        obtain ⟨⟨text, q'⟩, htext, heq⟩ := Option.map_eq_some_iff.mp h
        obtain ⟨rfl, rfl⟩ := Prod.mk.inj heq
        obtain ⟨hnul, rfl⟩ := ih htext
        exact ⟨by simp [hnul, Ne.symm hc], rfl⟩
  · rintro ⟨hnul, rfl⟩
    induction name with
    | nil => rfl
    | cons c name ih =>
      rw [List.mem_cons, not_or] at hnul
      rw [List.cons_append, takeText, if_neg (Ne.symm hnul.1), ih hnul.2]
      rfl

/-! ## The decoders -/

theorem decodeColumns_iff {n : Nat} {p : Bytes} {cols : List PgColumn} :
    decodeColumns n p = some cols ↔ ∃ (fields : List ColumnField) (rest : Bytes),
      fields.length = n ∧ p = fields.flatMap ColumnField.wire ++ rest ∧
        cols = fields.map ColumnField.column := by
  induction n generalizing p cols with
  | zero =>
    rw [decodeColumns, Option.some_inj]
    constructor
    · rintro rfl
      exact ⟨[], p, rfl, rfl, rfl⟩
    · rintro ⟨fields, rest, hlen, -, rfl⟩
      rw [List.eq_nil_of_length_eq_zero hlen]
      rfl
  | succ n ih =>
    simp only [decodeColumns, Option.bind_eq_bind, Option.bind_eq_some_iff, Prod.exists,
      takeText_eq_some_iff, advance_eq_some_iff, takeU16_eq_some_iff, ih]
    constructor
    · rintro ⟨name, _, ⟨hnul, rfl⟩, _, ⟨stepped, hstepped, rfl⟩, code, _, ⟨hcode, rfl⟩, _,
        ⟨fields, rest, hlen, rfl, rfl⟩, hcols⟩
      refine ⟨⟨name, stepped, code, hnul, hstepped, hcode⟩ :: fields, rest, ?_, ?_, ?_⟩
      · rw [List.length_cons, hlen]
      · simp only [List.flatMap_cons, ColumnField.wire, List.append_assoc, List.cons_append]
      · exact (Option.some.inj hcols).symm
    · rintro ⟨fields, rest, hlen, rfl, rfl⟩
      cases fields with
      | nil => cases hlen
      | cons f fields =>
        refine ⟨f.name, f.stepped ++ (writeU16Be f.code ++ (fields.flatMap ColumnField.wire ++ rest)),
          ⟨f.nul_not_mem, ?_⟩, _, ⟨f.stepped, f.length_stepped, rfl⟩, f.code, _, ⟨f.code_lt, rfl⟩, _,
          ⟨fields, rest, Nat.succ.inj hlen, rfl, rfl⟩, rfl⟩
        simp only [List.flatMap_cons, ColumnField.wire, List.append_assoc, List.cons_append]

theorem decodeValues_succ (n : Nat) (p : Bytes) :
    decodeValues (n + 1) p = (takeU32 p).bind fun r =>
      (if 0 < toInt32 r.1 then advance (toInt32 r.1).toNat r.2 else some r.2).bind fun next =>
        (decodeValues n next).bind fun row => some (⟨r.2, toInt32 r.1⟩ :: row) := by
  rw [decodeValues, Option.bind_eq_bind]
  congr 1
  funext r
  obtain ⟨len, p⟩ := r
  dsimp only
  split <;> rfl

theorem decodeValues_iff {n : Nat} {p : Bytes} {row : List PgValue} :
    decodeValues n p = some row ↔ ∃ (fields : List ValueField) (rest : Bytes),
      fields.length = n ∧ p = fields.flatMap ValueField.wire ++ rest ∧
        row = ValueField.values fields rest := by
  induction n generalizing p row with
  | zero =>
    rw [decodeValues, Option.some_inj]
    constructor
    · rintro rfl
      exact ⟨[], p, rfl, rfl, rfl⟩
    · rintro ⟨fields, rest, hlen, -, rfl⟩
      rw [List.eq_nil_of_length_eq_zero hlen]
      rfl
  | succ n ih =>
    -- a length that is not positive takes nothing
    have hbody (len : Nat) (p next : Bytes) :
        (if 0 < toInt32 len then advance (toInt32 len).toNat p else some p) = some next ↔
          ∃ body, body.length = (toInt32 len).toNat ∧ p = body ++ next := by
      split
      · exact advance_eq_some_iff
      · rw [Option.some_inj]
        constructor
        · rintro rfl
          exact ⟨[], by rw [List.length_nil]; omega, rfl⟩
        · rintro ⟨body, hlen, rfl⟩
          rw [List.eq_nil_of_length_eq_zero (by omega : body.length = 0), List.nil_append]
    simp only [decodeValues_succ, Option.bind_eq_some_iff, Prod.exists, takeU32_eq_some_iff, hbody,
      ih]
    constructor
    · rintro ⟨len, _, ⟨hlt, rfl⟩, _, ⟨body, hlen, rfl⟩, _, ⟨fields, rest, hn, rfl, rfl⟩, hrow⟩
      refine ⟨⟨len, body, hlt, hlen⟩ :: fields, rest, ?_, ?_, ?_⟩
      · rw [List.length_cons, hn]
      · simp only [List.flatMap_cons, ValueField.wire, List.append_assoc]
      · exact (Option.some.inj hrow).symm
    · rintro ⟨fields, rest, hn, rfl, rfl⟩
      cases fields with
      | nil => cases hn
      | cons f fields =>
        refine ⟨f.length, f.body ++ (fields.flatMap ValueField.wire ++ rest), ⟨f.length_lt, ?_⟩, _,
          ⟨f.body, f.length_body, rfl⟩, _, ⟨fields, rest, Nat.succ.inj hn, rfl, rfl⟩, rfl⟩
        simp only [List.flatMap_cons, ValueField.wire, List.append_assoc]

/-! ## `populate_result` -/

/-- The pointer of the value is into the payload, and its bytes end in it. -/
def PgValue.InsideOf (payload : Bytes) (v : PgValue) : Prop :=
  v.ptr <:+ payload ∧ v.size ≤ v.ptr.length

/-- The name of the column is a piece of the payload, with its NUL. -/
def PgColumn.InsideOf (payload : Bytes) (col : PgColumn) : Prop := col.name ++ [0] <:+: payload

theorem ColumnField.inside {fields : List ColumnField} {rest payload : Bytes}
    (h : fields.flatMap wire ++ rest <:+ payload) :
    ∀ col ∈ fields.map column, col.InsideOf payload := by
  intro col hcol
  obtain ⟨f, hf, rfl⟩ := List.mem_map.mp hcol
  obtain ⟨fs, gs, rfl⟩ := List.append_of_mem hf
  refine List.IsInfix.trans ⟨fs.flatMap wire, f.stepped ++ writeU16Be f.code ++ gs.flatMap wire ++ rest,
    ?_⟩ h.isInfix
  simp only [List.flatMap_append, List.flatMap_cons, wire, column, List.append_assoc,
    List.cons_append, List.nil_append]

theorem ValueField.inside {fields : List ValueField} {rest payload : Bytes}
    (h : fields.flatMap wire ++ rest <:+ payload) :
    ∀ v ∈ values fields rest, v.InsideOf payload := by
  induction fields with
  | nil => simp [values]
  | cons f fields ih =>
    rw [List.flatMap_cons, wire, List.append_assoc, List.append_assoc] at h
    have hbody : f.body ++ (fields.flatMap wire ++ rest) <:+ payload :=
      (List.suffix_append _ _).trans h
    rw [values]
    refine List.forall_mem_cons.mpr ⟨⟨hbody, ?_⟩, ih ((List.suffix_append _ _).trans hbody)⟩
    have := f.length_body
    dsimp only
    rw [List.length_append]
    omega

namespace PgConnection

/-- `populate_result` has stored ranges of the payload only, or it has thrown. -/
def StaysInside (payload : Bytes) (result : PgResult) (r : Outcome Exn PgResult × PgConnection) :
    Prop :=
  match r.1 with
  | .returned next => ∃ cols rows, next.columns = result.columns ++ cols ∧
      next.rows = result.rows ++ rows ∧ (∀ col ∈ cols, col.InsideOf payload) ∧
      ∀ row ∈ rows, ∀ v ∈ row, v.InsideOf payload
  | .threw _ => True
  | .suspended => False
  | .undefined => False

theorem decodeRowDescription_isSome_iff {payload : Bytes} :
    (∃ cols, decodeRowDescription payload = some cols) ↔ RowFits .rowDescription payload := by
  simp only [decodeRowDescription, Option.bind_eq_bind, Option.bind_eq_some_iff, Prod.exists,
    takeU16_eq_some_iff, decodeColumns_iff, RowFits]
  constructor
  · rintro ⟨_, n, _, ⟨hlt, rfl⟩, fields, rest, rfl, rfl, -⟩
    exact ⟨fields, rest, hlt, rfl⟩
  · rintro ⟨fields, rest, hlt, rfl⟩
    exact ⟨_, _, _, ⟨hlt, rfl⟩, fields, rest, rfl, rfl, rfl⟩

theorem decodeDataRow_isSome_iff {payload : Bytes} :
    (∃ row, decodeDataRow payload = some row) ↔ RowFits .dataRow payload := by
  simp only [decodeDataRow, Option.bind_eq_bind, Option.bind_eq_some_iff, Prod.exists,
    takeU16_eq_some_iff, decodeValues_iff, RowFits]
  constructor
  · rintro ⟨_, n, _, ⟨hlt, rfl⟩, fields, rest, rfl, rfl, -⟩
    exact ⟨fields, rest, hlt, rfl⟩
  · rintro ⟨fields, rest, hlt, rfl⟩
    exact ⟨_, _, _, ⟨hlt, rfl⟩, fields, rest, rfl, rfl, rfl⟩

theorem decodeRowDescription_inside {payload : Bytes} {cols : List PgColumn}
    (h : decodeRowDescription payload = some cols) : ∀ col ∈ cols, col.InsideOf payload := by
  simp only [decodeRowDescription, Option.bind_eq_bind, Option.bind_eq_some_iff, Prod.exists,
    takeU16_eq_some_iff, decodeColumns_iff] at h
  obtain ⟨n, _, ⟨-, rfl⟩, fields, rest, -, rfl, rfl⟩ := h
  exact ColumnField.inside (List.suffix_append _ _)

theorem decodeDataRow_inside {payload : Bytes} {row : List PgValue}
    (h : decodeDataRow payload = some row) : ∀ v ∈ row, v.InsideOf payload := by
  simp only [decodeDataRow, Option.bind_eq_bind, Option.bind_eq_some_iff, Prod.exists,
    takeU16_eq_some_iff, decodeValues_iff] at h
  obtain ⟨n, _, ⟨-, rfl⟩, fields, rest, -, rfl, rfl⟩ := h
  exact ValueField.inside (List.suffix_append _ _)

/-- A payload that has been received is decoded inside of it exactly if it has the layout of a row;
of any other the end is overrun, without an exception. -/
theorem populateResult_inside_iff {type : ResponseType}
    (hrow : type = .rowDescription ∨ type = .dataRow) {c : PgConnection} {payload rest : Bytes}
    (hp : c.pending = payload ++ rest) (result : PgResult) :
    StaysInside payload result ((populateResult ⟨type, payload.length⟩ result).run c) ↔
      RowFits type payload := by
  obtain ⟨s, hread, hc⟩ := Socket.readInto_run true hp
  obtain ⟨c', hread, -⟩ := run_onSock hread hc
  rcases hrow with rfl | rfl
  · rw [← decodeRowDescription_isSome_iff, populateResult, Coro.bind_returned _ hread]
    cases hdecode : decodeRowDescription payload with
    | none => exact iff_of_false id (by simp)
    | some cols =>
      refine iff_of_true ⟨cols, [], ?_, ?_, decodeRowDescription_inside hdecode, by simp⟩ ⟨cols, rfl⟩
      · rw [PgResult.foldl_addColumn]
      · rw [PgResult.foldl_addColumn, List.append_nil]
  · rw [← decodeDataRow_isSome_iff, populateResult, Coro.bind_returned _ hread]
    cases hdecode : decodeDataRow payload with
    | none => exact iff_of_false id (by simp)
    | some row =>
      refine iff_of_true ⟨[], [row], (List.append_nil _).symm, rfl, by simp, ?_⟩ ⟨row, rfl⟩
      simpa using decodeDataRow_inside hdecode

/-- A connection that has received these bytes. -/
def received (payload : Bytes) : PgConnection where
  sock := Socket.new (payload.map fun b => .data (.single b)) fun _ => .accepted 0
  queryReady := false

/-- A row with one letter. -/
theorem populateResult_inside_letter :
    (received [0, 1, 0, 0, 0, 1, 97]).pending = [0, 1, 0, 0, 0, 1, 97] ++ [] ∧
      (StaysInside [0, 1, 0, 0, 0, 1, 97] .empty
          ((populateResult ⟨.dataRow, 7⟩ .empty).run (received [0, 1, 0, 0, 0, 1, 97])) ↔
        RowFits .dataRow [0, 1, 0, 0, 0, 1, 97]) := by
  have hp : (received [0, 1, 0, 0, 0, 1, 97]).pending = [0, 1, 0, 0, 0, 1, 97] ++ [] := by decide
  exact ⟨hp, populateResult_inside_iff (.inr rfl) hp .empty⟩

/-- A row that counts a value and has none. -/
theorem not_populateResult_inside : ¬ ∀ (type : ResponseType) (c : PgConnection)
    (payload rest : Bytes) (result : PgResult), type = .rowDescription ∨ type = .dataRow →
    c.pending = payload ++ rest →
    StaysInside payload result ((populateResult ⟨type, payload.length⟩ result).run c) := by
  intro h
  have hinside := h .dataRow (received [0, 1]) [0, 1] [] .empty (.inr rfl) (by decide)
  have hrun : ((populateResult ⟨.dataRow, ([0, 1] : Bytes).length⟩ .empty).run
      (received [0, 1])).1 = .undefined := by
    decide
  rw [StaysInside, hrun] at hinside
  exact hinside

end PgConnection

end CppEvent
