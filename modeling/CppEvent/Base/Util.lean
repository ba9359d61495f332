import Mathlib

/-!
# Bytes, texts and big-endian integers

The byte strings of the program, the literals that occur in them, the exceptions it throws, and the
conversions of `cppevent_base/util.cpp`.
-/

namespace CppEvent

/-- `std::byte`, `uint8_t` and `char` as they travel over a socket. -/
abbrev Byte := UInt8

/-- A `std::string`, a span or a vector of bytes. -/
abbrev Bytes := List Byte

/-- A string literal of the source. -/
def ascii (s : String) : Bytes := s.toList.map Char.toUInt8

/-- What a function throws. `systemError` is `throw_error(text, errnum)`, whose message is the text
followed by `strerror(errnum)`. -/
inductive Exn where
  | runtimeError (what : String)
  | systemError (what : String) (errnum : Nat)
  | lengthError
  deriving DecidableEq, Repr

abbrev cr : Byte := 13
abbrev lf : Byte := 10
abbrev space : Byte := 32

def readU16Be (b₀ b₁ : Byte) : Nat := b₀.toNat * 2 ^ 8 + b₁.toNat

def readU32Be (b₀ b₁ b₂ b₃ : Byte) : Nat := readU16Be b₀ b₁ * 2 ^ 16 + readU16Be b₂ b₃

def writeU16Be (val : Nat) : Bytes := [UInt8.ofNat (val / 2 ^ 8), UInt8.ofNat val]

def writeU32Be (val : Nat) : Bytes := writeU16Be (val / 2 ^ 16) ++ writeU16Be val

theorem readU16Be_lt (b₀ b₁ : Byte) : readU16Be b₀ b₁ < 2 ^ 16 := by
  have h₀ := b₀.toNat_lt
  have h₁ := b₁.toNat_lt
  rw [readU16Be]
  omega

theorem readU32Be_lt (b₀ b₁ b₂ b₃ : Byte) : readU32Be b₀ b₁ b₂ b₃ < 2 ^ 32 := by
  have h₀ := readU16Be_lt b₀ b₁
  have h₁ := readU16Be_lt b₂ b₃
  rw [readU32Be]
  omega

theorem readU16Be_writeU16Be (n : Nat) :
    readU16Be (UInt8.ofNat (n / 2 ^ 8)) (UInt8.ofNat n) = n % 2 ^ 16 := by
  rw [readU16Be, UInt8.toNat_ofNat', UInt8.toNat_ofNat']
  omega

theorem length_writeU32Be (n : Nat) : (writeU32Be n).length = 4 := rfl

theorem writeU32Be_eq (n : Nat) :
    ∃ b₀ b₁ b₂ b₃, writeU32Be n = [b₀, b₁, b₂, b₃] ∧ readU32Be b₀ b₁ b₂ b₃ = n % 2 ^ 32 := by
  refine ⟨_, _, _, _, rfl, ?_⟩
  rw [readU32Be, readU16Be_writeU16Be, readU16Be_writeU16Be]
  omega

end CppEvent
