import CppEvent.Base.Util

/-!
# Base64

`encoding.cpp`. Bits are collected in a `uint64_t` and taken from it in groups, the most significant
ones first, whenever their number is a multiple of the group's size.
-/

namespace CppEvent

/-- `base64_enc`, of a group of six bits. -/
def base64Enc (b : Nat) : Byte :=
  if b ≤ 25 then UInt8.ofNat ('A'.toNat + b)
  else if b ≤ 51 then UInt8.ofNat ('a'.toNat + (b - 26))
  else if b ≤ 61 then UInt8.ofNat ('0'.toNat + (b - 52))
  else if b = 62 then '+'.toUInt8
  else '/'.toUInt8

def base64Dec (c : Byte) : Except Exn Nat :=
  if 'A'.toUInt8 ≤ c ∧ c ≤ 'Z'.toUInt8 then .ok (c.toNat - 'A'.toNat)
  else if 'a'.toUInt8 ≤ c ∧ c ≤ 'z'.toUInt8 then .ok (c.toNat - 'a'.toNat + 26)
  else if '0'.toUInt8 ≤ c ∧ c ≤ '9'.toUInt8 then .ok (c.toNat - '0'.toNat + 52)
  else if c = '+'.toUInt8 then .ok 62
  else if c = '/'.toUInt8 then .ok 63
  else .error (.runtimeError "unrecognized character base64")

def getMsb (msbBits num totalBits : Nat) : Nat := num / 2 ^ (totalBits - msbBits) % 2 ^ msbBits

/-- `for (; num_bits > 0; num_bits -= width) push_back(get_msb<width>(num, num_bits))`, for a number
of bits that the width divides. -/
def groups (width num numBits : Nat) : List Nat :=
  (List.range (numBits / width)).map fun i => getMsb width num (numBits - i * width)

/-- The state of the loop of `base64_encode`: the result, `num` and `num_bits`. -/
structure Encoder where
  result : Bytes
  num : Nat
  numBits : Nat

def Encoder.step (e : Encoder) (b : Byte) : Encoder :=
  let num := (e.num * 2 ^ 8 + b.toNat) % 2 ^ 64
  let numBits := e.numBits + 8
  if numBits % 6 ≠ 0 then { e with num := num, numBits := numBits }
  else { result := e.result ++ (groups 6 num numBits).map base64Enc, num := num, numBits := 0 }

def base64Encode (data : Bytes) : Bytes :=
  let e := data.foldl Encoder.step { result := [], num := 0, numBits := 0 }
  let paddingBits := if e.numBits = 8 then 4 else if e.numBits = 2 * 8 then 2 else 0
  let num := e.num * 2 ^ paddingBits % 2 ^ 64
  e.result ++ (groups 6 num (e.numBits + paddingBits)).map base64Enc ++
    List.replicate (paddingBits / 2) '='.toUInt8

/-- The state of the loop of `base64_decode`; padding can make `num_bits` negative. -/
structure Decoder where
  result : Bytes
  num : Nat
  numBits : Int

def Decoder.step (d : Decoder) (c : Byte) : Except Exn Decoder := do
  let (num, numBits) ←
    if c ≠ '='.toUInt8 then do
      let b ← base64Dec c
      pure ((d.num * 2 ^ 6 + b) % 2 ^ 64, d.numBits + 6)
    else pure (d.num / 2 ^ 2, d.numBits - 2)
  if numBits % 8 ≠ 0 then pure { d with num := num, numBits := numBits }
  else pure {
    result := d.result ++ (groups 8 num numBits.toNat).map UInt8.ofNat
    num := num
    numBits := min numBits 0 }

def base64Decode (str : Bytes) : Except Exn Bytes := do
  let d ← str.foldlM Decoder.step { result := [], num := 0, numBits := 0 }
  pure d.result

example : base64Encode (ascii "Man is") = ascii "TWFuIGlz" := by decide

example : base64Encode (ascii "pencil!") = ascii "cGVuY2lsIQ==" := by decide

end CppEvent
