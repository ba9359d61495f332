import CppEvent.Postgres.Receive

/-!
# Messages of the backend

The messages that answer a query, in the terms of the protocol (`BackendMessage`), and their bytes
(`Reply.frame`). Of the rows and descriptions among them the decoders of `populate_result` give back
what was encoded.
-/

namespace CppEvent

open Coroutine

/-- A field of a row description: its name, the sixteen bytes about its table and type, and its format
code. -/
structure FieldDescription where
  name : Bytes
  attributes : Bytes
  format : Nat
  deriving DecidableEq, Repr

namespace FieldDescription

def encode (f : FieldDescription) : Bytes :=
  f.name ++ [0] ++ f.attributes ++ writeU16Be f.format

structure WellFormed (f : FieldDescription) : Prop where
  name : 0 ∉ f.name
  attributes : f.attributes.length = 16
  format : f.format < 2 ^ 16

instance (f : FieldDescription) : Decidable f.WellFormed :=
  decidable_of_iff (0 ∉ f.name ∧ f.attributes.length = 16 ∧ f.format < 2 ^ 16)
    ⟨fun ⟨h₁, h₂, h₃⟩ => ⟨h₁, h₂, h₃⟩, fun h => ⟨h.name, h.attributes, h.format⟩⟩

def column (f : FieldDescription) : PgColumn where
  name := f.name
  code := f.format

end FieldDescription

def encodeValue : Option Bytes → Bytes
  | some text => writeU32Be text.length ++ text
  | none => writeU32Be (2 ^ 32 - 1)

/-- A message that answers a query. -/
inductive BackendMessage where
  | rowDescription (fields : List FieldDescription)
  | dataRow (values : List (Option Bytes))
  | commandComplete (tag : Bytes)
  | emptyQueryResponse
  | errorResponse (fields : Bytes)
  | noticeResponse (fields : Bytes)
  | parseComplete
  | bindComplete
  | closeComplete
  | portalSuspended
  | readyForQuery (status : Byte)
  deriving DecidableEq, Repr

namespace BackendMessage

def kind : BackendMessage → Byte
  | rowDescription _ => 'T'.toUInt8
  | dataRow _ => 'D'.toUInt8
  | commandComplete _ => 'C'.toUInt8
  | emptyQueryResponse => 'I'.toUInt8
  | errorResponse _ => 'E'.toUInt8
  | noticeResponse _ => 'N'.toUInt8
  | parseComplete => '1'.toUInt8
  | bindComplete => '2'.toUInt8
  | closeComplete => '3'.toUInt8
  | portalSuspended => 's'.toUInt8
  | readyForQuery _ => 'Z'.toUInt8

def payload : BackendMessage → Bytes
  | rowDescription fields => writeU16Be fields.length ++ fields.flatMap FieldDescription.encode
  | dataRow values => writeU16Be values.length ++ values.flatMap encodeValue
  | commandComplete tag => tag ++ [0]
  | errorResponse fields => fields
  | noticeResponse fields => fields
  | readyForQuery status => [status]
  | _ => []

/-- The parts of the message are in their ranges, and so is its length field. -/
def WellFormed (m : BackendMessage) : Prop :=
  m.payload.length + 4 < 2 ^ 31 ∧ match m with
    | rowDescription fields => fields.length < 2 ^ 16 ∧ ∀ f ∈ fields, f.WellFormed
    | dataRow values => values.length < 2 ^ 16
    | commandComplete tag => 0 ∉ tag
    | _ => True

/-- The enumerator that its type byte is cast to. -/
def type : BackendMessage → ResponseType
  | rowDescription _ => .rowDescription
  | dataRow _ => .dataRow
  | commandComplete _ => .commandComplete
  | emptyQueryResponse => .emptyQueryResponse
  | errorResponse _ => .errorResponse
  | noticeResponse _ => .noticeResponse
  | parseComplete => .parseComplete
  | bindComplete => .bindComplete
  | closeComplete => .other '3'.toUInt8
  | portalSuspended => .portalSuspended
  | readyForQuery _ => .readyForQuery

theorem ofByte_kind (m : BackendMessage) : ResponseType.ofByte m.kind = m.type := by
  cases m <;> rfl

end BackendMessage

structure Reply where
  message : BackendMessage
  wellFormed : message.WellFormed

namespace Reply

def frame (r : Reply) : Frame :=
  .message r.message.kind r.message.payload (by have := r.wellFormed.1; omega)

@[simp] theorem type_frame (r : Reply) : r.frame.type = r.message.type := r.message.ofByte_kind

@[simp] theorem payload_frame (r : Reply) : r.frame.payload = r.message.payload := rfl

theorem length_frame (r : Reply) : r.frame.length = r.message.payload.length + 4 := rfl

theorem size_frame (r : Reply) : r.frame.size = r.message.payload.length :=
  r.frame.size_eq (by rw [length_frame]; omega)

theorem isNotice_frame {r : Reply} (h : r.message.type = .noticeResponse) : r.frame.IsNotice :=
  ⟨by rw [type_frame, h], by rw [length_frame]; omega⟩

theorem not_isNotice {r : Reply} (h : r.message.type ≠ .noticeResponse) :
    r.frame.type ≠ .noticeResponse := by rwa [type_frame]

theorem exists_notices (rs : List Reply) : (∀ n ∈ rs, n.message.type = .noticeResponse) ∨
    ∃ ns r rs', rs = ns ++ r :: rs' ∧ (∀ n ∈ ns, n.message.type = .noticeResponse) ∧
      r.message.type ≠ .noticeResponse := by
  induction rs with
  | nil => exact .inl (by simp)
  | cons r rs ih =>
    by_cases hr : r.message.type = .noticeResponse
    · rcases ih with hall | ⟨ns, r', rs', rfl, hns, hr'⟩
      · exact .inl (List.forall_mem_cons.mpr ⟨hr, hall⟩)
      · exact .inr ⟨r :: ns, r', rs', rfl, List.forall_mem_cons.mpr ⟨hr, hns⟩, hr'⟩
    · exact .inr ⟨[], r, rs, rfl, by simp, hr⟩

theorem frame_isNotice {ns : List Reply} (hns : ∀ n ∈ ns, n.message.type = .noticeResponse) :
    ∀ f ∈ ns.map frame, f.IsNotice := by
  intro f hf
  obtain ⟨n, hn, rfl⟩ := List.mem_map.mp hf
  exact isNotice_frame (hns n hn)

end Reply

/-! ## Descriptions -/

theorem takeText_append {name : Bytes} (h : 0 ∉ name) (p : Bytes) :
    takeText (name ++ [0] ++ p) = some (name, p) := by
  induction name with
  | nil => rfl
  | cons c name ih =>
    obtain ⟨hc, hname⟩ := not_or.mp (List.mem_cons.not.mp h)
    rw [List.cons_append, List.cons_append, takeText, if_neg (Ne.symm hc), ih hname]
    rfl

theorem takeU16_writeU16Be {n : Nat} (h : n < 2 ^ 16) (p : Bytes) :
    takeU16 (writeU16Be n ++ p) = some (n, p) := by
  show some (readU16Be _ _, p) = some (n, p)
  rw [readU16Be_writeU16Be, Nat.mod_eq_of_lt h]

theorem decodeColumns_encode (fields : List FieldDescription) (h : ∀ f ∈ fields, f.WellFormed) :
    decodeColumns fields.length (fields.flatMap FieldDescription.encode) =
      some (fields.map FieldDescription.column) := by
  induction fields with
  | nil => rfl
  | cons f fields ih =>
    obtain ⟨hf, hfields⟩ := List.forall_mem_cons.mp h
    have hadvance : ∀ p, advance (4 * 4) (f.attributes ++ p) = some p := by
      intro p
      rw [advance, if_pos (by rw [List.length_append, hf.attributes]; omega),
        List.drop_left' hf.attributes]
    rw [List.flatMap_cons, FieldDescription.encode, List.length_cons, decodeColumns,
      List.append_assoc, List.append_assoc, takeText_append hf.name]
    simp only [Option.bind_eq_bind, Option.bind_some, hadvance, takeU16_writeU16Be hf.format,
      ih hfields, List.map_cons]
    rfl

theorem decodeRowDescription_payload {fields : List FieldDescription}
    (h : (BackendMessage.rowDescription fields).WellFormed) :
    decodeRowDescription (BackendMessage.rowDescription fields).payload =
      some (fields.map FieldDescription.column) := by
  obtain ⟨-, hcount, hfields⟩ := h
  rw [decodeRowDescription, BackendMessage.payload, takeU16_writeU16Be hcount]
  exact decodeColumns_encode fields hfields

/-! ## Rows -/

def PgValue.content (v : PgValue) : Option Bytes :=
  if v.isNull then none else some (v.ptr.take v.size.toNat)

theorem PgValue.content_text (text p : Bytes) :
    PgValue.content { ptr := text ++ p, size := text.length } = some text := by
  have hnull : PgValue.isNull { ptr := text ++ p, size := text.length } = false := by
    simp [PgValue.isNull]
  rw [content, hnull, if_neg Bool.false_ne_true, Int.toNat_natCast, List.take_left]

theorem decodeValues_encode (values : List (Option Bytes))
    (h : ∀ text, some text ∈ values → text.length < 2 ^ 31) :
    ∃ row, decodeValues values.length (values.flatMap encodeValue) = some row ∧
      row.map PgValue.content = values := by
  induction values with
  | nil => exact ⟨[], rfl, rfl⟩
  | cons value values ih =>
    obtain ⟨row, hrow, hcontent⟩ := ih fun text ht => h text (List.mem_cons_of_mem _ ht)
    cases value with
    | none =>
      refine ⟨_, decodeValues_null hrow, ?_⟩
      rw [List.map_cons, hcontent]
      rfl
    | some text =>
      refine ⟨_, decodeValues_text (h text List.mem_cons_self) hrow, ?_⟩
      rw [List.map_cons, hcontent, PgValue.content_text]

theorem length_value_le {values : List (Option Bytes)} {text : Bytes} (h : some text ∈ values) :
    text.length ≤ (values.flatMap encodeValue).length := by
  obtain ⟨before, after, rfl⟩ := List.append_of_mem h
  simp only [List.flatMap_append, List.flatMap_cons, List.length_append, encodeValue]
  omega

theorem decodeDataRow_payload {values : List (Option Bytes)}
    (h : (BackendMessage.dataRow values).WellFormed) :
    ∃ row, decodeDataRow (BackendMessage.dataRow values).payload = some row ∧
      row.map PgValue.content = values := by
  obtain ⟨hlength, hcount⟩ := h
  rw [BackendMessage.payload, List.length_append] at hlength
  obtain ⟨row, hrow, hcontent⟩ := decodeValues_encode values fun text ht => by
    have := length_value_le ht
    omega
  refine ⟨row, ?_, hcontent⟩
  rw [decodeDataRow, BackendMessage.payload, takeU16_writeU16Be hcount]
  exact hrow

/-! ## Taking a message -/

namespace PgConnection

variable {c : PgConnection} {r : Reply} {fs : List Frame} {rest : Bytes}

theorem Delivers.skip (h : c.Delivers r.frame fs rest) :
    ∃ c', (skip r.frame.size).run c = (.returned (r.frame.size : Int), c') ∧
      c.Consumes r.frame.payload c' := by
  rw [r.size_frame]
  exact skip_run h.pending

theorem Delivers.skipIfAny (h : c.Delivers r.frame fs rest) :
    ∃ c', (skipIfAny r.frame.size).run c = (.returned (r.frame.size : Int), c') ∧
      c.Consumes r.frame.payload c' := by
  rw [r.size_frame]
  exact skipIfAny_run h.pending

theorem Delivers.readTag (h : c.Delivers r.frame fs rest) {tag : Bytes}
    (hr : r.message = .commandComplete tag) :
    ∃ c', (readTag r.frame.size).run c = (.returned tag, c') ∧ c.Consumes r.frame.payload c' := by
  obtain ⟨c', hrun, hc⟩ := readTag_run h.pending
  have hpayload : r.frame.payload = tag ++ [0] := by rw [Reply.payload_frame, hr]; rfl
  rw [r.size_frame, ← Reply.payload_frame]
  refine ⟨c', ?_, hc⟩
  rw [hrun, hpayload, if_neg (by simp), List.dropLast_concat]

theorem Delivers.rowDescription (h : c.Delivers r.frame fs rest) {fields : List FieldDescription}
    (hr : r.message = .rowDescription fields) (result : PgResult) :
    ∃ c', (populateDiscarded ⟨r.frame.type, r.frame.size⟩ result).run c =
        (.returned ((fields.map FieldDescription.column).foldl PgResult.addColumn result), c') ∧
      c.Consumes r.frame.payload c' := by
  have htype : r.frame.type = .rowDescription := by rw [Reply.type_frame, hr]; rfl
  obtain ⟨more, hmore⟩ := h.buffered
  obtain ⟨c', hrun, hc⟩ := populateDiscarded_buffered (.inl htype)
    (by rw [Reply.length_frame]; omega) result hmore
  have hdecode : decodeRowDescription r.frame.payload =
      some (fields.map FieldDescription.column) := by
    have hwf := r.wellFormed
    rw [Reply.payload_frame]
    rw [hr] at hwf ⊢
    exact decodeRowDescription_payload hwf
  refine ⟨c', ?_, hc⟩
  rw [hrun, htype, populated, hdecode]
  rfl

theorem Delivers.dataRow (h : c.Delivers r.frame fs rest) {values : List (Option Bytes)}
    (hr : r.message = .dataRow values) (result : PgResult) :
    ∃ row c', (populateDiscarded ⟨r.frame.type, r.frame.size⟩ result).run c =
        (.returned (result.addRow row), c') ∧
      row.map PgValue.content = values ∧ c.Consumes r.frame.payload c' := by
  have htype : r.frame.type = .dataRow := by rw [Reply.type_frame, hr]; rfl
  obtain ⟨more, hmore⟩ := h.buffered
  obtain ⟨c', hrun, hc⟩ := populateDiscarded_buffered (.inr htype)
    (by rw [Reply.length_frame]; omega) result hmore
  obtain ⟨row, hdecode, hcontent⟩ : ∃ row, decodeDataRow r.frame.payload = some row ∧
      row.map PgValue.content = values := by
    have hwf := r.wellFormed
    rw [Reply.payload_frame]
    rw [hr] at hwf ⊢
    exact decodeDataRow_payload hwf
  refine ⟨row, c', ?_, hcontent, hc⟩
  rw [hrun, htype, populated, hdecode]
  rfl

end PgConnection

end CppEvent
