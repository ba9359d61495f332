import CppEvent.Base.Util

/-!
# Messages of the protocol

The enumerations and the header of `pg_connection.hpp`, and the messages that a backend sends
(`Frame`): a type byte, a length field that counts itself, and what the length field promises.
-/

namespace CppEvent

/-- `response_type`. Every byte is cast to it, an enumerator or not. -/
inductive ResponseType where
  | errorResponse
  | negotiateProtocolVersion
  | authentication
  | backendKeyData
  | parameterStatus
  | readyForQuery
  | noticeResponse
  | emptyQueryResponse
  | commandComplete
  | dataRow
  | rowDescription
  | parseComplete
  | bindComplete
  | portalSuspended
  | other (c : Byte)
  deriving DecidableEq, Repr

def ResponseType.ofByte (c : Byte) : ResponseType :=
  if c = 'E'.toUInt8 then errorResponse
  else if c = 'v'.toUInt8 then negotiateProtocolVersion
  else if c = 'R'.toUInt8 then authentication
  else if c = 'K'.toUInt8 then backendKeyData
  else if c = 'S'.toUInt8 then parameterStatus
  else if c = 'Z'.toUInt8 then readyForQuery
  else if c = 'N'.toUInt8 then noticeResponse
  else if c = 'I'.toUInt8 then emptyQueryResponse
  else if c = 'C'.toUInt8 then commandComplete
  else if c = 'D'.toUInt8 then dataRow
  else if c = 'T'.toUInt8 then rowDescription
  else if c = '1'.toUInt8 then parseComplete
  else if c = '2'.toUInt8 then bindComplete
  else if c = 's'.toUInt8 then portalSuspended
  else other c

/-- `auth_type`, cast from any `uint32_t`. -/
inductive AuthType where
  | ok
  | clearTextPassword
  | sasl
  | saslContinue
  | saslFinal
  | other (code : Nat)
  deriving DecidableEq, Repr

def AuthType.ofCode : Nat → AuthType
  | 0 => ok
  | 3 => clearTextPassword
  | 10 => sasl
  | 11 => saslContinue
  | 12 => saslFinal
  | code => other code

structure ResponseInfo where
  type : ResponseType
  size : Int
  deriving DecidableEq, Repr

abbrev headerSize : Nat := 5

def responseHeader (type : Byte) (size : Nat) : Bytes := type :: writeU32Be (size + 4)

/-- What `get_response_info` makes of a header; the size is a difference of `uint32_t`. -/
def decodeHeader (header : Bytes) : ResponseInfo where
  type := ResponseType.ofByte (header.getD 0 0)
  size := ((readU32Be (header.getD 1 0) (header.getD 2 0) (header.getD 3 0) (header.getD 4 0) +
    2 ^ 32 - 4) % 2 ^ 32 : Nat)

/-- A message of the backend. A length field below 4 does not even cover itself. -/
structure Frame where
  kind : Byte
  length : Nat
  payload : Bytes
  length_lt : length < 2 ^ 32
  length_payload : payload.length = length - 4

namespace Frame

def type (f : Frame) : ResponseType := ResponseType.ofByte f.kind

def header (f : Frame) : Bytes := f.kind :: writeU32Be f.length

def wire (f : Frame) : Bytes := f.header ++ f.payload

/-- The size that the header is read for. -/
def size (f : Frame) : Nat := (f.length + 2 ^ 32 - 4) % 2 ^ 32

def message (kind : Byte) (payload : Bytes) (h : payload.length < 2 ^ 32 - 4) : Frame where
  kind := kind
  length := payload.length + 4
  payload := payload
  length_lt := by omega
  length_payload := by omega

@[simp] theorem length_header (f : Frame) : f.header.length = headerSize := rfl

theorem length_wire (f : Frame) : f.wire.length = headerSize + f.payload.length := by
  rw [wire, List.length_append, length_header]

theorem decodeHeader_header (f : Frame) : decodeHeader f.header = ⟨f.type, f.size⟩ := by
  obtain ⟨b₀, b₁, b₂, b₃, hb, hread⟩ := writeU32Be_eq f.length
  rw [Nat.mod_eq_of_lt f.length_lt] at hread
  rw [header, hb, size, ← hread]
  rfl

theorem size_eq (f : Frame) (h : 4 ≤ f.length) : f.size = f.payload.length := by
  have := f.length_lt
  have := f.length_payload
  rw [size]
  omega

/-- A length field that does not cover itself is read for almost `2 ^ 32`. -/
theorem size_of_lt (f : Frame) (h : f.length < 4) : f.size = 2 ^ 32 - 4 + f.length := by
  rw [size]
  omega

attribute [irreducible] size

end Frame

end CppEvent
