import CppEvent.Base.Charconv
import CppEvent.Postgres.Receive

/-!
# `pg_params` and `pg_conv`

The parameters of `pg_params.hpp` with the serializers of `pg_conv.hpp`, and the parsers of the same file
that read the values of a row. What is stored for a query has the form of a data row, and read as one it
gives back what was stored (`stored_reads_back`).
-/

namespace CppEvent

open Coroutine

/-- The types that are stored and parsed. -/
inductive PgType where
  | integral (t : IntegralType)
  | bool
  | string

/-- A `T` for which there are a `pg_serializer<T>` and a `pg_parser<T>`. -/
def PgType.Val : PgType → Type
  | integral _ => Int
  | bool => Bool
  | string => Bytes

/-- The values that a `T` can have; the length of a string is below `2 ^ 31`. -/
def PgType.Holds : (T : PgType) → T.Val → Prop
  | integral t, z => t.Holds z
  | bool, _ => True
  | string, bs => List.length (α := Byte) bs < 2 ^ 31

/-- The values of a `T`, a string being as long as it is. -/
def PgType.InRange : (T : PgType) → T.Val → Prop
  | integral t, z => t.Holds z
  | bool, _ | string, _ => True

/-- `pg_parser<T>::parse`. -/
def PgType.parse : (T : PgType) → Bytes → Int → Except Exn T.Val
  | integral t, ptr, size =>
      match fromCharsAs t (ptr.take size.toNat) with
      | .ok val _ => .ok val
      | .resultOutOfRange => .error (.runtimeError "pg_parser parse: value out of range")
      | .invalidArgument => .error (.runtimeError "pg_parser parse: invalid argument")
  | bool, ptr, size =>
      if size ≠ 1 then .error (.runtimeError "pg_parser parse: invalid bool value")
      else
        match ptr.head? with
        | some 116 => .ok true
        | some 102 => .ok false
        | _ => .error (.runtimeError "pg_parser parse: invalid bool value")
  | string, ptr, size => .ok (ptr.take size.toNat)

/-- `SERIALIZE_BUFFER_SIZE` of `pg_conv.hpp`. -/
abbrev serializeBufferSize : Nat := 256

/-- `pg_serializer<T>::serialize`, of the buffer that it appends to. -/
def PgType.serialize : (T : PgType) → Bytes → T.Val → Except Exn Bytes
  | integral _, buf, val =>
      let text := toCharsInt val
      if serializeBufferSize < text.length then
        .error (.runtimeError "pg_serializer serialize: value too large")
      else .ok (buf ++ writeU32Be text.length ++ text)
  | string, buf, val =>
      let val : Bytes := val
      .ok (buf ++ writeU32Be val.length ++ val)
  | bool, buf, val =>
      let val : Bool := val
      .ok (buf ++ writeU32Be 1 ++ [if val then 116 else 102])

inductive StoreArg where
  | value (T : PgType) (val : T.Val)
  | optional (T : PgType) (val : Option T.Val)

structure PgParams where
  count : Nat
  buffer : Bytes

namespace PgParams

def new : PgParams where
  count := 0
  buffer := [0, 0]

def increment (p : PgParams) : PgParams where
  count := p.count + 1
  buffer := writeU16Be (p.count + 1) ++ p.buffer.drop 2

/-- `store(const T&)`. -/
def storeValue (p : PgParams) (T : PgType) (val : T.Val) : PgParams × Except Exn Unit :=
  let p := p.increment
  match T.serialize p.buffer val with
  | .ok buffer => ({ p with buffer := buffer }, .ok ())
  | .error e => (p, .error e)

def store (p : PgParams) : StoreArg → PgParams × Except Exn Unit
  | .value T val | .optional T (some val) => p.storeValue T val
  | .optional _ none =>
      let p := p.increment
      ({ p with buffer := p.buffer ++ writeU32Be (2 ^ 32 - 1) }, .ok ())

def storeAll (p : PgParams) (arg : StoreArg) : List StoreArg → PgParams × Except Exn Unit
  | [] => p.store arg
  | next :: args =>
      match p.store arg with
      | (p, .ok ()) => p.storeAll next args
      | (p, .error e) => (p, .error e)

/-- Calls of `store`, one after the other, up to the first that throws. -/
def storeCalls (p : PgParams) : List (StoreArg × List StoreArg) → PgParams × Except Exn Unit
  | [] => (p, .ok ())
  | (arg, args) :: calls =>
      match p.storeAll arg args with
      | (p, .ok ()) => p.storeCalls calls
      | (p, .error e) => (p, .error e)

def stored (calls : List (StoreArg × List StoreArg)) : List StoreArg :=
  calls.flatMap fun call => call.1 :: call.2

end PgParams

/-! ## Values -/

namespace PgType

/-- The text that is stored for a value. -/
def text : (T : PgType) → T.Val → Bytes
  | integral _, z => toCharsInt z
  | bool, b =>
      let b : Bool := b
      [if b then 116 else 102]
  | string, bs => bs

theorem Holds.inRange {T : PgType} {val : T.Val} (h : T.Holds val) : T.InRange val := by
  cases T with
  | integral t => exact h
  | bool | string => trivial

theorem serialize_eq {T : PgType} {val : T.Val} (h : T.InRange val) (buf : Bytes) :
    T.serialize buf val = .ok (buf ++ writeU32Be (T.text val).length ++ T.text val) := by
  cases T with
  | integral t =>
    have hlength := length_toCharsInt_le (show t.Holds val from h)
    have hfits : ¬ serializeBufferSize < (toCharsInt val).length := by
      rw [serializeBufferSize]
      omega
    simp only [serialize, if_neg hfits]
    rfl
  | bool => rfl
  | string => rfl

/-- What was stored for a value is parsed as that value, wherever it stands. -/
theorem parse_text {T : PgType} {val : T.Val} (h : T.Holds val) (rest : Bytes) :
    T.parse (T.text val ++ rest) (T.text val).length = .ok val := by
  cases T with
  | integral t =>
    rw [parse, Int.toNat_natCast, List.take_left, text,
      fromCharsAs_toCharsInt (show t.Holds val from h)]
  | bool => cases val <;> rfl
  | string =>
    rw [parse, Int.toNat_natCast, List.take_left]
    rfl

theorem length_text_lt {T : PgType} {val : T.Val} (h : T.Holds val) :
    (T.text val).length < 2 ^ 31 := by
  cases T with
  | integral t =>
    have hlength := length_toCharsInt_le (show t.Holds val from h)
    rw [text]
    omega
  | bool =>
    show 1 < 2 ^ 31
    omega
  | string => exact h

end PgType

namespace StoreArg

def Holds : StoreArg → Prop
  | value T val | optional T (some val) => T.Holds val
  | optional _ none => True

/-- The argument is in the range of its type, a string being as long as it is. -/
def InRange : StoreArg → Prop
  | value T val | optional T (some val) => T.InRange val
  | optional _ none => True

theorem Holds.inRange {arg : StoreArg} (h : arg.Holds) : arg.InRange :=
  match arg, h with
  | value _ _, h | optional _ (some _), h => PgType.Holds.inRange h
  | optional _ none, _ => trivial

/-- The text that is stored for the argument, if it is not null. -/
def content : StoreArg → Option Bytes
  | value T val | optional T (some val) => some (T.text val)
  | optional _ none => none

/-- What is appended for an argument. -/
def entry (arg : StoreArg) : Bytes :=
  match arg.content with
  | some text => writeU32Be text.length ++ text
  | none => writeU32Be (2 ^ 32 - 1)

/-- A value of a row is what was stored: null if nothing was, and else parsed as the value. -/
def Reads : StoreArg → PgValue → Prop
  | value T val, v | optional T (some val), v => v.isNull = false ∧ T.parse v.ptr v.size = .ok val
  | optional _ none, v => v.isNull = true

end StoreArg

/-! ## Storing -/

namespace PgParams

/-- The count is in front of the buffer, and `body` follows it. -/
def Holds (p : PgParams) (body : Bytes) : Prop := p.buffer = writeU16Be p.count ++ body

theorem increment_holds {p : PgParams} {body : Bytes} (h : p.Holds body) :
    p.increment.Holds body := by
  rw [Holds, increment, h]
  rfl

theorem storeValue_run {p : PgParams} {body : Bytes} (h : p.Holds body) {T : PgType} {val : T.Val}
    (hval : T.InRange val) : ∃ p', p.storeValue T val = (p', .ok ()) ∧ p'.count = p.count + 1 ∧
      p'.Holds (body ++ (writeU32Be (T.text val).length ++ T.text val)) := by
  refine ⟨{ p.increment with
    buffer := p.increment.buffer ++ writeU32Be (T.text val).length ++ T.text val }, ?_, rfl, ?_⟩
  · rw [storeValue, PgType.serialize_eq hval]
  · have hincrement := increment_holds h
    rw [Holds] at hincrement ⊢
    simp only [hincrement, List.append_assoc]

theorem store_run {p : PgParams} {body : Bytes} (h : p.Holds body) {arg : StoreArg}
    (harg : arg.InRange) : ∃ p', p.store arg = (p', .ok ()) ∧ p'.count = p.count + 1 ∧
      p'.Holds (body ++ arg.entry) := by
  cases arg with
  | value T val => exact storeValue_run h harg
  | optional T val =>
    cases val with
    | some val => exact storeValue_run h harg
    | none =>
      refine ⟨_, rfl, rfl, ?_⟩
      have hincrement := increment_holds h
      rw [Holds] at hincrement ⊢
      simp only [hincrement, List.append_assoc]
      rfl

theorem storeAll_run (args : List StoreArg) {p : PgParams} {body : Bytes} (h : p.Holds body)
    {arg : StoreArg} (hargs : ∀ a ∈ arg :: args, a.InRange) :
    ∃ p', p.storeAll arg args = (p', .ok ()) ∧ p'.count = p.count + (arg :: args).length ∧
      p'.Holds (body ++ (arg :: args).flatMap StoreArg.entry) := by
  induction args generalizing p body arg with
  | nil =>
    obtain ⟨p', hstore, hcount, hholds⟩ := store_run h (hargs arg List.mem_cons_self)
    refine ⟨p', hstore, hcount, ?_⟩
    rwa [List.flatMap_singleton]
  | cons next args ih =>
    obtain ⟨p₁, hstore, hcount₁, hholds₁⟩ := store_run h (hargs arg List.mem_cons_self)
    obtain ⟨p', hrest, hcount, hholds⟩ := ih hholds₁ fun a ha => hargs a (List.mem_cons_of_mem _ ha)
    refine ⟨p', ?_, ?_, ?_⟩
    · rw [storeAll, hstore]
      exact hrest
    · simp only [hcount, hcount₁, List.length_cons]
      omega
    · rwa [List.flatMap_cons, ← List.append_assoc]

/-- After any calls the buffer holds the count and what was stored, in order. -/
theorem storeCalls_run (calls : List (StoreArg × List StoreArg)) {p : PgParams} {body : Bytes}
    (h : p.Holds body) (hcalls : ∀ a ∈ stored calls, a.InRange) :
    ∃ p', p.storeCalls calls = (p', .ok ()) ∧ p'.count = p.count + (stored calls).length ∧
      p'.Holds (body ++ (stored calls).flatMap StoreArg.entry) := by
  induction calls generalizing p body with
  | nil =>
    refine ⟨p, rfl, rfl, ?_⟩
    rwa [stored, List.flatMap_nil, List.flatMap_nil, List.append_nil]
  | cons call calls ih =>
    have hsplit : stored (call :: calls) = (call.1 :: call.2) ++ stored calls := List.flatMap_cons
    rw [hsplit] at hcalls ⊢
    obtain ⟨p₁, hstore, hcount₁, hholds₁⟩ := storeAll_run call.2 h fun a ha =>
      hcalls a (List.mem_append_left _ ha)
    obtain ⟨p', hrest, hcount, hholds⟩ := ih hholds₁ fun a ha =>
      hcalls a (List.mem_append_right _ ha)
    refine ⟨p', ?_, ?_, ?_⟩
    · rw [storeCalls, hstore]
      exact hrest
    · rw [hcount, hcount₁, List.length_append, Nat.add_assoc]
    · rwa [List.flatMap_append, ← List.append_assoc]

end PgParams

/-! ## Reading back -/

/-- The values of a row lie one behind the other in `p`, each after a length field of four bytes, and
nothing follows the last one. -/
def Tiles : Bytes → List PgValue → Prop
  | p, [] => p = []
  | p, v :: row => ∃ field, field.length = 4 ∧ p = field ++ v.ptr ∧ v.size ≤ v.ptr.length ∧
      Tiles (v.ptr.drop v.size.toNat) row

theorem decodeValues_entries (args : List StoreArg) (hargs : ∀ a ∈ args, a.Holds) :
    ∃ row, decodeValues args.length (args.flatMap StoreArg.entry) = some row ∧
      List.Forall₂ StoreArg.Reads args row ∧ Tiles (args.flatMap StoreArg.entry) row := by
  induction args with
  | nil => exact ⟨[], rfl, .nil, rfl⟩
  | cons arg args ih =>
    obtain ⟨harg, hargs⟩ := List.forall_mem_cons.mp hargs
    obtain ⟨row, hrow, hreads, htiles⟩ := ih hargs
    -- an argument with a text, stored as a value or in an optional
    have hvalue : ∀ T : PgType, ∀ val : T.Val, T.Holds val →
        ∃ v : PgValue, decodeValues (args.length + 1)
            (writeU32Be (T.text val).length ++ T.text val ++ args.flatMap StoreArg.entry) =
              some (v :: row) ∧
          (v.isNull = false ∧ T.parse v.ptr v.size = .ok val) ∧
          Tiles (writeU32Be (T.text val).length ++ T.text val ++ args.flatMap StoreArg.entry)
            (v :: row) := by
      intro T val hval
      have hlt := PgType.length_text_lt hval
      refine ⟨_, decodeValues_text hlt hrow, ⟨?_, PgType.parse_text hval _⟩,
        writeU32Be (T.text val).length, rfl, List.append_assoc _ _ _, ?_, ?_⟩
      · simp [PgValue.isNull]
      · exact Int.ofNat_le.mpr (by rw [List.length_append]; omega)
      · rwa [Int.toNat_natCast, List.drop_left]
    cases arg with
    | value T val =>
      obtain ⟨v, hdecode, hread, htile⟩ := hvalue T val harg
      exact ⟨v :: row, hdecode, .cons hread hreads, htile⟩
    | optional T val =>
      cases val with
      | some val =>
        obtain ⟨v, hdecode, hread, htile⟩ := hvalue T val harg
        exact ⟨v :: row, hdecode, .cons hread hreads, htile⟩
      | none =>
        refine ⟨_, decodeValues_null hrow, .cons rfl hreads, writeU32Be (2 ^ 32 - 1), rfl, rfl, ?_,
          htiles⟩
        exact Int.le_trans (show (-1 : Int) ≤ 0 by omega) (Int.natCast_nonneg _)

/-- However up to 65535 values are stored, the buffer is the payload of a data row, which gives one row
with a value for each of them: null for an empty optional, and else parsed as what was stored. -/
theorem stored_reads_back (calls : List (StoreArg × List StoreArg))
    (hcalls : ∀ a ∈ PgParams.stored calls, a.Holds)
    (hcount : (PgParams.stored calls).length ≤ 65535) :
    ∃ p row, PgParams.new.storeCalls calls = (p, .ok ()) ∧ decodeDataRow p.buffer = some row ∧
      List.Forall₂ StoreArg.Reads (PgParams.stored calls) row ∧
      (∃ field body, field.length = 2 ∧ p.buffer = field ++ body ∧ Tiles body row) ∧
      ∀ (c : PgConnection) (result : PgResult) (rest : Bytes), c.pending = p.buffer ++ rest →
        ∃ c', (PgConnection.populateResult ⟨.dataRow, p.buffer.length⟩ result).run c =
            (.returned (result.addRow row), c') ∧ c.Consumes p.buffer c' := by
  obtain ⟨p, hstore, hp, hholds⟩ := PgParams.storeCalls_run calls
    (show PgParams.new.Holds [] from rfl) fun a ha => (hcalls a ha).inRange
  obtain ⟨row, hrow, hreads, htiles⟩ := decodeValues_entries (PgParams.stored calls) hcalls
  rw [PgParams.Holds, hp, List.nil_append] at hholds
  have hdecode : decodeDataRow p.buffer = some row := by
    rw [decodeDataRow, hholds]
    simp only [PgParams.new, Nat.zero_add]
    show (some (readU16Be _ _, _) >>= fun r => decodeValues r.1 r.2) = some row
    rw [readU16Be_writeU16Be, Nat.mod_eq_of_lt (by omega)]
    exact hrow
  refine ⟨p, row, hstore, hdecode, hreads, ⟨_, _, rfl, hholds, htiles⟩, fun c result rest h => ?_⟩
  obtain ⟨s, hread, hc⟩ := Socket.readInto_run true h
  obtain ⟨c', hrun, hc'⟩ := PgConnection.run_onSock hread hc
  refine ⟨c', ?_, hc'⟩
  rw [PgConnection.populateResult]
  simp only
  rw [Coro.bind_returned _ hrun, hdecode]
  rfl

/-- A number, an empty optional and a text, in two calls. -/
theorem stored_reads_back_three :
    let calls : List (StoreArg × List StoreArg) :=
      [(.value (.integral .int) (-12 : Int), [.optional .bool none]),
        (.value .string (ascii "hello"), [])]
    ∃ p row, PgParams.new.storeCalls calls = (p, .ok ()) ∧ decodeDataRow p.buffer = some row ∧
      List.Forall₂ StoreArg.Reads (PgParams.stored calls) row := by
  intro calls
  have hcalls : ∀ a ∈ PgParams.stored calls, a.Holds := by
    intro a ha
    simp only [calls, PgParams.stored, List.flatMap_cons, List.flatMap_nil, List.append_nil,
      List.cons_append, List.nil_append, List.mem_cons, List.not_mem_nil, or_false] at ha
    rcases ha with rfl | rfl | rfl
    · show IntegralType.int.Holds (-12)
      decide
    · trivial
    · show (ascii "hello").length < 2 ^ 31
      decide
  obtain ⟨p, row, hstore, hdecode, hreads, -⟩ := stored_reads_back calls hcalls (by decide)
  exact ⟨p, row, hstore, hdecode, hreads⟩

end CppEvent
