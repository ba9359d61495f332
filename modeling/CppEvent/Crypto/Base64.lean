import CppEvent.Crypto.Encoding

/-!
# Base64 of RFC 4648

`rfc4648` is the encoding group by group, as the standard states it. The accumulator of the code is
never cleared, so each of its groups is read from the low bits of a number about which nothing else is
known: `Encoder.step_three` and `Decoder.step_four` are one group from any such number, and the
rest is induction over the groups.
-/

namespace CppEvent

/-! ## The standard -/

/-- The alphabet of section 4. -/
def rfc4648Alphabet : Bytes :=
  ascii "ABCDEFGHIJKLMNOPQRSTUVWXYZabcdefghijklmnopqrstuvwxyz0123456789+/"

def rfc4648Letter (n : Nat) : Byte := rfc4648Alphabet.getD n 0

/-- The four letters of 24 bits. -/
def rfc4648Letters (bits : Nat) : Bytes :=
  [rfc4648Letter (bits / 2 ^ 18), rfc4648Letter (bits / 2 ^ 12 % 2 ^ 6),
    rfc4648Letter (bits / 2 ^ 6 % 2 ^ 6), rfc4648Letter (bits % 2 ^ 6)]

/-- The encoding: a last group of fewer than three bytes is filled with zeros, and the letters that
come from them alone are padding. -/
def rfc4648 : Bytes → Bytes
  | a :: b :: c :: data => rfc4648Letters (a.toNat * 2 ^ 16 + b.toNat * 2 ^ 8 + c.toNat) ++ rfc4648 data
  | [a, b] => (rfc4648Letters (a.toNat * 2 ^ 16 + b.toNat * 2 ^ 8)).take 3 ++ ['='.toUInt8]
  | [a] => (rfc4648Letters (a.toNat * 2 ^ 16)).take 2 ++ ['='.toUInt8, '='.toUInt8]
  | [] => []

/-- The three bytes of 24 bits. -/
def octets (bits : Nat) : Bytes :=
  [UInt8.ofNat (bits / 2 ^ 16), UInt8.ofNat (bits / 2 ^ 8), UInt8.ofNat bits]

/-- A text of complete groups of four, the last of which may end in one or two `=`, and its bytes. The
bits of the letters that are left over do not matter. -/
inductive Base64Text : Bytes → Bytes → Prop
  | nil : Base64Text [] []
  | three (bits : Nat) (h : bits < 2 ^ 24) {text data : Bytes} (rest : Base64Text text data) :
      Base64Text (rfc4648Letters bits ++ text) (octets bits ++ data)
  | two (bits : Nat) (h : bits < 2 ^ 24) :
      Base64Text ((rfc4648Letters bits).take 3 ++ ['='.toUInt8]) ((octets bits).take 2)
  | one (bits : Nat) (h : bits < 2 ^ 24) :
      Base64Text ((rfc4648Letters bits).take 2 ++ ['='.toUInt8, '='.toUInt8]) ((octets bits).take 1)

theorem ofNat_congr {m n : Nat} (h : m % 2 ^ 8 = n % 2 ^ 8) : UInt8.ofNat m = UInt8.ofNat n := by
  apply UInt8.toNat_inj.mp
  rw [UInt8.toNat_ofNat', UInt8.toNat_ofNat', h]

theorem ofNat_eq {num : Nat} {a : Byte} (h : num % 2 ^ 8 = a.toNat) : UInt8.ofNat num = a := by
  apply UInt8.toNat_inj.mp
  rw [UInt8.toNat_ofNat', h]

theorem rfc4648_text (data : Bytes) : Base64Text (rfc4648 data) data := by
  fun_induction rfc4648 data with
  | case1 a b c data ih =>
    have ha := a.toNat_lt
    have hb := b.toNat_lt
    have hc := c.toNat_lt
    have hthree := Base64Text.three (a.toNat * 2 ^ 16 + b.toNat * 2 ^ 8 + c.toNat) (by omega) ih
    rw [octets, ofNat_eq (a := a) (by omega), ofNat_eq (a := b) (by omega),
      ofNat_eq (a := c) (by omega)] at hthree
    exact hthree
  | case2 a b =>
    have ha := a.toNat_lt
    have hb := b.toNat_lt
    have htwo := Base64Text.two (a.toNat * 2 ^ 16 + b.toNat * 2 ^ 8) (by omega)
    rw [octets, ofNat_eq (a := a) (by omega), ofNat_eq (a := b) (by omega)] at htwo
    exact htwo
  | case3 a =>
    have ha := a.toNat_lt
    have hone := Base64Text.one (a.toNat * 2 ^ 16) (by omega)
    rw [octets, ofNat_eq (a := a) (by omega)] at hone
    exact hone
  | case4 => exact .nil

theorem length_rfc4648 (data : Bytes) : (rfc4648 data).length = 4 * ((data.length + 2) / 3) := by
  fun_induction rfc4648 data with
  | case1 a b c data ih =>
    rw [List.length_append, ih, rfc4648Letters]
    simp only [List.length_cons, List.length_nil]
    omega
  | case2 a b => simp [rfc4648Letters]
  | case3 a => simp [rfc4648Letters]
  | case4 => rfl

/-! ## Letters -/

theorem base64Enc_eq {n : Nat} (h : n < 64) : base64Enc n = rfc4648Letter n := by
  have hall : ∀ n < 64, base64Enc n = rfc4648Letter n := by decide +kernel
  exact hall n h

theorem base64Dec_letter {n : Nat} (h : n < 64) : base64Dec (rfc4648Letter n) = .ok n := by
  have hall : ∀ n < 64, (base64Dec (rfc4648Letter n)).toOption = some n := by decide +kernel
  have hn := hall n h
  cases hdec : base64Dec (rfc4648Letter n) with
  | error e => simp [hdec, Except.toOption] at hn
  | ok m =>
    rw [hdec] at hn
    exact congrArg Except.ok (Option.some.inj hn)

theorem letter_ne_padding {n : Nat} (h : n < 64) : rfc4648Letter n ≠ '='.toUInt8 := by
  intro hpadding
  have hdec := base64Dec_letter h
  rw [hpadding] at hdec
  cases hdec

/-! ## Encoding -/

theorem letters_three {num : Nat} (bits : Nat) (h : num % 2 ^ 24 = bits) :
    (groups 6 num 24).map base64Enc = rfc4648Letters bits := by
  have hgroups : groups 6 num 24 = [num / 2 ^ 18 % 2 ^ 6, num / 2 ^ 12 % 2 ^ 6,
    num / 2 ^ 6 % 2 ^ 6, num / 2 ^ 0 % 2 ^ 6] := rfl
  simp only [hgroups, List.map_cons, List.map_nil, rfc4648Letters]
  rw [base64Enc_eq (by omega), base64Enc_eq (by omega), base64Enc_eq (by omega),
    base64Enc_eq (by omega), show num / 2 ^ 18 % 2 ^ 6 = bits / 2 ^ 18 by omega,
    show num / 2 ^ 12 % 2 ^ 6 = bits / 2 ^ 12 % 2 ^ 6 by omega,
    show num / 2 ^ 6 % 2 ^ 6 = bits / 2 ^ 6 % 2 ^ 6 by omega,
    show num / 2 ^ 0 % 2 ^ 6 = bits % 2 ^ 6 by omega]

theorem letters_two {num : Nat} (bits : Nat) (h : num % 2 ^ 18 * 2 ^ 6 = bits) :
    (groups 6 num 18).map base64Enc = (rfc4648Letters bits).take 3 := by
  have hgroups : groups 6 num 18 = [num / 2 ^ 12 % 2 ^ 6, num / 2 ^ 6 % 2 ^ 6,
    num / 2 ^ 0 % 2 ^ 6] := rfl
  simp only [hgroups, List.map_cons, List.map_nil, rfc4648Letters, List.take_succ_cons,
    List.take_zero]
  rw [base64Enc_eq (by omega), base64Enc_eq (by omega), base64Enc_eq (by omega),
    show num / 2 ^ 12 % 2 ^ 6 = bits / 2 ^ 18 by omega,
    show num / 2 ^ 6 % 2 ^ 6 = bits / 2 ^ 12 % 2 ^ 6 by omega,
    show num / 2 ^ 0 % 2 ^ 6 = bits / 2 ^ 6 % 2 ^ 6 by omega]

theorem letters_one {num : Nat} (bits : Nat) (h : num % 2 ^ 12 * 2 ^ 12 = bits) :
    (groups 6 num 12).map base64Enc = (rfc4648Letters bits).take 2 := by
  have hgroups : groups 6 num 12 = [num / 2 ^ 6 % 2 ^ 6, num / 2 ^ 0 % 2 ^ 6] := rfl
  simp only [hgroups, List.map_cons, List.map_nil, rfc4648Letters, List.take_succ_cons,
    List.take_zero]
  rw [base64Enc_eq (by omega), base64Enc_eq (by omega),
    show num / 2 ^ 6 % 2 ^ 6 = bits / 2 ^ 18 by omega,
    show num / 2 ^ 0 % 2 ^ 6 = bits / 2 ^ 12 % 2 ^ 6 by omega]

namespace Encoder

theorem step_short (result : Bytes) (num : Nat) {numBits : Nat} (h : (numBits + 8) % 6 ≠ 0)
    (b : Byte) : (Encoder.mk result num numBits).step b =
      ⟨result, (num * 2 ^ 8 + b.toNat) % 2 ^ 64, numBits + 8⟩ := by
  rw [step, if_pos h]

theorem step_full (result : Bytes) (num : Nat) (b : Byte) : (Encoder.mk result num 16).step b =
    ⟨result ++ (groups 6 ((num * 2 ^ 8 + b.toNat) % 2 ^ 64) 24).map base64Enc,
      (num * 2 ^ 8 + b.toNat) % 2 ^ 64, 0⟩ := by
  rw [step, if_neg (by simp)]

theorem step_three (result : Bytes) (num : Nat) (a b c : Byte) :
    ∃ num', (((Encoder.mk result num 0).step a).step b).step c =
      ⟨result ++ rfc4648Letters (a.toNat * 2 ^ 16 + b.toNat * 2 ^ 8 + c.toNat), num', 0⟩ := by
  have ha := a.toNat_lt
  have hb := b.toNat_lt
  have hc := c.toNat_lt
  rw [step_short result num (by decide) a, step_short result _ (by decide) b, step_full,
    letters_three (a.toNat * 2 ^ 16 + b.toNat * 2 ^ 8 + c.toNat) (by omega)]
  exact ⟨_, rfl⟩

/-- What `base64_encode` does behind its loop. -/
def finish (e : Encoder) : Bytes :=
  let paddingBits := if e.numBits = 8 then 4 else if e.numBits = 2 * 8 then 2 else 0
  let num := e.num * 2 ^ paddingBits % 2 ^ 64
  e.result ++ (groups 6 num (e.numBits + paddingBits)).map base64Enc ++
    List.replicate (paddingBits / 2) '='.toUInt8

theorem finish_two (result : Bytes) (num : Nat) : (Encoder.mk result num 16).finish =
    result ++ (groups 6 (num * 2 ^ 2 % 2 ^ 64) 18).map base64Enc ++ ['='.toUInt8] := by
  simp [finish]

theorem finish_one (result : Bytes) (num : Nat) : (Encoder.mk result num 8).finish =
    result ++ (groups 6 (num * 2 ^ 4 % 2 ^ 64) 12).map base64Enc ++
      ['='.toUInt8, '='.toUInt8] := by
  simp [finish, List.replicate]

/-- From any accumulator without bits to emit, the loop and its end append the encoding. -/
theorem finish_foldl (data : Bytes) (result : Bytes) (num : Nat) :
    (data.foldl step ⟨result, num, 0⟩).finish = result ++ rfc4648 data := by
  fun_induction rfc4648 data generalizing result num with
  | case1 a b c data ih =>
    obtain ⟨num', hstep⟩ := step_three result num a b c
    rw [List.foldl_cons, List.foldl_cons, List.foldl_cons, hstep, ih, List.append_assoc]
  | case2 a b =>
    have ha := a.toNat_lt
    have hb := b.toNat_lt
    rw [List.foldl_cons, List.foldl_cons, List.foldl_nil, step_short result num (by decide) a,
      step_short result _ (by decide) b]
    rw [finish_two, letters_two (a.toNat * 2 ^ 16 + b.toNat * 2 ^ 8) (by omega),
      List.append_assoc]
  | case3 a =>
    have ha := a.toNat_lt
    rw [List.foldl_cons, List.foldl_nil, step_short result num (by decide) a]
    rw [finish_one, letters_one (a.toNat * 2 ^ 16) (by omega), List.append_assoc]
  | case4 =>
    rw [List.foldl_nil, finish]
    simp [groups]

end Encoder

theorem base64Encode_eq (data : Bytes) : base64Encode data = rfc4648 data :=
  Encoder.finish_foldl data [] 0

/-! ## Decoding -/

namespace Decoder

theorem step_letter (result : Bytes) (num : Nat) {numBits : Int} (h : (numBits + 6) % 8 ≠ 0)
    {n : Nat} (hn : n < 64) : (Decoder.mk result num numBits).step (rfc4648Letter n) =
      pure ⟨result, (num * 2 ^ 6 + n) % 2 ^ 64, numBits + 6⟩ := by
  rw [step, if_pos (letter_ne_padding hn), base64Dec_letter hn]
  exact if_pos h

theorem step_last (result : Bytes) (num : Nat) {n : Nat} (hn : n < 64) :
    (Decoder.mk result num 18).step (rfc4648Letter n) =
      pure ⟨result ++ (groups 8 ((num * 2 ^ 6 + n) % 2 ^ 64) 24).map UInt8.ofNat,
        (num * 2 ^ 6 + n) % 2 ^ 64, 0⟩ := by
  rw [step, if_pos (letter_ne_padding hn), base64Dec_letter hn]
  rfl

theorem step_padding (result : Bytes) (num : Nat) {numBits : Int} (h : (numBits - 2) % 8 ≠ 0) :
    (Decoder.mk result num numBits).step '='.toUInt8 =
      pure ⟨result, num / 2 ^ 2, numBits - 2⟩ := by
  rw [step, if_neg (by simp)]
  exact if_pos h

theorem step_padding_last (result : Bytes) (num : Nat) {numBits : Int} (h : (numBits - 2) % 8 = 0)
    (hpos : 2 ≤ numBits) : (Decoder.mk result num numBits).step '='.toUInt8 =
      pure ⟨result ++ (groups 8 (num / 2 ^ 2) (numBits - 2).toNat).map UInt8.ofNat,
        num / 2 ^ 2, 0⟩ := by
  rw [step, if_neg (by simp)]
  have hmin : min (numBits - 2) 0 = 0 := by omega
  refine (if_neg (not_not.mpr h)).trans ?_
  simp only [hmin]

theorem octets_three {num : Nat} (bits : Nat) (h : num % 2 ^ 24 = bits) :
    (groups 8 num 24).map UInt8.ofNat = octets bits := by
  have hgroups : groups 8 num 24 = [num / 2 ^ 16 % 2 ^ 8, num / 2 ^ 8 % 2 ^ 8,
    num / 2 ^ 0 % 2 ^ 8] := rfl
  rw [hgroups, List.map_cons, List.map_cons, List.map_cons, List.map_nil, octets,
    ofNat_congr (show num / 2 ^ 16 % 2 ^ 8 % 2 ^ 8 = bits / 2 ^ 16 % 2 ^ 8 by omega),
    ofNat_congr (show num / 2 ^ 8 % 2 ^ 8 % 2 ^ 8 = bits / 2 ^ 8 % 2 ^ 8 by omega),
    ofNat_congr (show num / 2 ^ 0 % 2 ^ 8 % 2 ^ 8 = bits % 2 ^ 8 by omega)]

theorem octets_two {num : Nat} (bits : Nat) (h : num % 2 ^ 16 = bits / 2 ^ 8) :
    (groups 8 num 16).map UInt8.ofNat = (octets bits).take 2 := by
  have hgroups : groups 8 num 16 = [num / 2 ^ 8 % 2 ^ 8, num / 2 ^ 0 % 2 ^ 8] := rfl
  rw [hgroups, List.map_cons, List.map_cons, List.map_nil, octets, List.take_succ_cons,
    List.take_succ_cons, List.take_zero,
    ofNat_congr (show num / 2 ^ 8 % 2 ^ 8 % 2 ^ 8 = bits / 2 ^ 16 % 2 ^ 8 by omega),
    ofNat_congr (show num / 2 ^ 0 % 2 ^ 8 % 2 ^ 8 = bits / 2 ^ 8 % 2 ^ 8 by omega)]

theorem octets_one {num : Nat} (bits : Nat) (h : num % 2 ^ 8 = bits / 2 ^ 16) :
    (groups 8 num 8).map UInt8.ofNat = (octets bits).take 1 := by
  have hgroups : groups 8 num 8 = [num / 2 ^ 0 % 2 ^ 8] := rfl
  rw [hgroups, List.map_cons, List.map_nil, octets, List.take_succ_cons, List.take_zero,
    ofNat_congr (show num / 2 ^ 0 % 2 ^ 8 % 2 ^ 8 = bits / 2 ^ 16 % 2 ^ 8 by omega)]

theorem foldlM_three (result : Bytes) (num : Nat) {bits : Nat} (h : bits < 2 ^ 24) (text : Bytes) :
    ∃ num', (rfc4648Letters bits ++ text).foldlM step ⟨result, num, 0⟩ =
      text.foldlM step ⟨result ++ octets bits, num', 0⟩ := by
  rw [rfc4648Letters, List.cons_append, List.cons_append, List.cons_append, List.cons_append,
    List.nil_append, List.foldlM_cons, step_letter result num (by decide) (by omega), pure_bind,
    List.foldlM_cons, step_letter result _ (by decide) (by omega), pure_bind,
    List.foldlM_cons, step_letter result _ (by decide) (by omega), pure_bind,
    List.foldlM_cons, show (0 + 6 + 6 + 6 : Int) = 18 by rfl, step_last result _ (by omega),
    pure_bind, octets_three bits (by omega)]
  exact ⟨_, rfl⟩

theorem foldlM_two (result : Bytes) (num : Nat) {bits : Nat} (h : bits < 2 ^ 24) :
    ∃ num', ((rfc4648Letters bits).take 3 ++ ['='.toUInt8]).foldlM step ⟨result, num, 0⟩ =
      pure ⟨result ++ (octets bits).take 2, num', 0⟩ := by
  rw [rfc4648Letters, List.take_succ_cons, List.take_succ_cons, List.take_succ_cons, List.take_zero,
    List.cons_append, List.cons_append, List.cons_append, List.nil_append,
    List.foldlM_cons, step_letter result num (by decide) (by omega), pure_bind,
    List.foldlM_cons, step_letter result _ (by decide) (by omega), pure_bind,
    List.foldlM_cons, step_letter result _ (by decide) (by omega), pure_bind,
    List.foldlM_cons, step_padding_last result _ (by decide) (by decide), pure_bind, List.foldlM_nil,
    show (0 + 6 + 6 + 6 - 2 : Int).toNat = 16 by rfl, octets_two bits (by omega)]
  exact ⟨_, rfl⟩

theorem foldlM_one (result : Bytes) (num : Nat) {bits : Nat} (h : bits < 2 ^ 24) :
    ∃ num', ((rfc4648Letters bits).take 2 ++ ['='.toUInt8, '='.toUInt8]).foldlM step
        ⟨result, num, 0⟩ = pure ⟨result ++ (octets bits).take 1, num', 0⟩ := by
  rw [rfc4648Letters, List.take_succ_cons, List.take_succ_cons, List.take_zero,
    List.cons_append, List.cons_append, List.nil_append,
    List.foldlM_cons, step_letter result num (by decide) (by omega), pure_bind,
    List.foldlM_cons, step_letter result _ (by decide) (by omega), pure_bind,
    List.foldlM_cons, step_padding result _ (by decide), pure_bind,
    List.foldlM_cons, step_padding_last result _ (by decide) (by decide), pure_bind, List.foldlM_nil,
    show (0 + 6 + 6 - 2 - 2 : Int).toNat = 8 by rfl, octets_one bits (by omega)]
  exact ⟨_, rfl⟩

/-- From any accumulator without bits to emit, the loop appends the bytes of the text. -/
theorem foldlM_text {text data : Bytes} (h : Base64Text text data) (result : Bytes) (num : Nat) :
    ∃ num', text.foldlM step ⟨result, num, 0⟩ = pure ⟨result ++ data, num', 0⟩ := by
  induction h generalizing result num with
  | nil => exact ⟨num, by rw [List.foldlM_nil, List.append_nil]⟩
  | three bits hlt _ ih =>
    obtain ⟨num₁, hthree⟩ := foldlM_three result num hlt _
    obtain ⟨num₂, hrest⟩ := ih (result ++ octets bits) num₁
    exact ⟨num₂, by rw [hthree, hrest, List.append_assoc]⟩
  | two bits hlt => exact foldlM_two result num hlt
  | one bits hlt => exact foldlM_one result num hlt

end Decoder

theorem base64Decode_text {text data : Bytes} (h : Base64Text text data) :
    base64Decode text = .ok data := by
  obtain ⟨num, hloop⟩ := Decoder.foldlM_text h [] 0
  rw [base64Decode, hloop]
  rfl

/-- `base64_encode` is the encoding of the standard, and `base64_decode` inverts it. -/
theorem base64_roundTrip (data : Bytes) :
    (base64Encode data).length = 4 * ((data.length + 2) / 3) ∧ base64Encode data = rfc4648 data ∧
      base64Decode (base64Encode data) = .ok data := by
  rw [base64Encode_eq]
  exact ⟨length_rfc4648 data, rfl, base64Decode_text (rfc4648_text data)⟩

/-! ## Texts of any form -/

def IsBase64Char (c : Byte) : Prop := c ∈ rfc4648Alphabet ∨ c = '='.toUInt8

instance (c : Byte) : Decidable (IsBase64Char c) := inferInstanceAs (Decidable (_ ∨ _))

theorem base64Dec_cases (c : Byte) : (c ∈ rfc4648Alphabet ∧ ∃ n, base64Dec c = .ok n) ∨
    c ∉ rfc4648Alphabet ∧ ∃ e, base64Dec c = .error e := by
  have hall : ∀ n < 2 ^ 8, (base64Dec (UInt8.ofNat n)).toOption.isSome ↔
      UInt8.ofNat n ∈ rfc4648Alphabet := by
    decide +kernel
  have hc := hall c.toNat c.toNat_lt
  rw [UInt8.ofNat_toNat] at hc
  cases hdec : base64Dec c with
  | ok n => exact .inl ⟨hc.mp (by rw [hdec]; rfl), n, rfl⟩
  | error e =>
    refine .inr ⟨fun hmem => ?_, e, rfl⟩
    have := hc.mpr hmem
    rw [hdec] at this
    cases this

namespace Decoder

/-- A round goes on from a character of base64 in any state, and throws at any other. -/
theorem step_cases (d : Decoder) (c : Byte) :
    (IsBase64Char c ∧ ∃ d', d.step c = .ok d') ∨ ¬ IsBase64Char c ∧ ∃ e, d.step c = .error e := by
  by_cases hc : c = '='.toUInt8
  · refine .inl ⟨.inr hc, ?_⟩
    rw [step, if_neg (not_not.mpr hc), pure_bind]
    dsimp only
    split
    · exact ⟨_, rfl⟩
    · exact ⟨_, rfl⟩
  · rw [step, if_pos hc]
    rcases base64Dec_cases c with ⟨hmem, n, hdec⟩ | ⟨hmem, e, hdec⟩
    · refine .inl ⟨.inl hmem, ?_⟩
      rw [hdec]
      dsimp only [bind, Except.bind, pure, Except.pure]
      split
      · exact ⟨_, rfl⟩
      · exact ⟨_, rfl⟩
    · refine .inr ⟨fun h => h.elim hmem hc, e, ?_⟩
      rw [hdec]
      rfl

theorem foldlM_ok_iff (s : Bytes) (d : Decoder) :
    (∃ d', s.foldlM step d = .ok d') ↔ ∀ c ∈ s, IsBase64Char c := by
  induction s generalizing d with
  | nil => exact iff_of_true ⟨d, rfl⟩ (by simp)
  | cons c cs ih =>
    rw [List.foldlM_cons, List.forall_mem_cons]
    rcases step_cases d c with ⟨hc, d', hstep⟩ | ⟨hc, e, hstep⟩
    · rw [hstep, and_iff_right hc]
      exact ih d'
    · rw [hstep]
      refine iff_of_false ?_ fun h => hc h.1
      rintro ⟨d', h⟩
      cases h

end Decoder

/-- The decoder returns from any text of letters and padding, in any order and number. -/
theorem base64Decode_ok_iff {s : Bytes} :
    (∃ data, base64Decode s = .ok data) ↔ ∀ c ∈ s, IsBase64Char c := by
  rw [← Decoder.foldlM_ok_iff s ⟨[], 0, 0⟩, base64Decode]
  cases List.foldlM Decoder.step ⟨[], 0, 0⟩ s with
  | ok d => exact iff_of_true ⟨d.result, rfl⟩ ⟨d, rfl⟩
  | error e =>
    refine iff_of_false ?_ ?_
    · rintro ⟨data, h⟩
      cases h
    · rintro ⟨d, h⟩
      cases h

/-- What is returned is what the text encodes, exactly if the text is one of complete groups or has a
character that is none of base64. -/
theorem base64Decode_rejects_iff (s : Bytes) :
    (∀ data, base64Decode s = .ok data → Base64Text s data) ↔
      (∃ data, Base64Text s data) ∨ ∃ c ∈ s, ¬ IsBase64Char c := by
  constructor
  · intro h
    by_cases hall : ∀ c ∈ s, IsBase64Char c
    · obtain ⟨data, hdata⟩ := base64Decode_ok_iff.mpr hall
      exact .inl ⟨data, h data hdata⟩
    · push Not at hall
      exact .inr hall
  · rintro (⟨data, htext⟩ | ⟨c, hc, hforeign⟩) data' hdecode
    · rw [base64Decode_text htext] at hdecode
      rwa [← Except.ok.inj hdecode]
    · exact absurd (base64Decode_ok_iff.mp ⟨data', hdecode⟩ c hc) hforeign

theorem Base64Text.length_mod {text data : Bytes} (h : Base64Text text data) :
    text.length % 4 = 0 := by
  induction h with
  | nil => rfl
  | three bits _ _ ih =>
    rw [List.length_append, rfc4648Letters]
    simp only [List.length_cons, List.length_nil]
    omega
  | two bits => simp [rfc4648Letters]
  | one bits => simp [rfc4648Letters]

/-- A single letter is no group. -/
theorem not_base64Decode_rejects :
    ¬ ∀ s data : Bytes, base64Decode s = .ok data → Base64Text s data := by
  intro h
  exact absurd (h ['A'.toUInt8] [] (by rfl)).length_mod (by decide)

end CppEvent
