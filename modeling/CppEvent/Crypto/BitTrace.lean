import CppEvent.Crypto.Base64
import CppEvent.Library.Coroutine

/-!
# The bits in hand

`base64_encode` and `base64_decode` with their inner loops as the source has them, and with a record of
what they count and of the calls they make (`BitEvent`). What they compute is what `Encoding.lean` says
(`base64_bits`), and the record shows that no shift is out of range: each character moves the count of
`base64_decode` by -2 modulo 8, so that every fourth one leads to a multiple of 8 of at most 24.
-/

namespace CppEvent

open Coroutine

/-- What is recorded: a new value of `num_bits`, the arguments of a call of `get_msb` less the number
from which the bits are taken, and the argument of a call of `base64_enc`. -/
inductive BitEvent where
  | counted (numBits : Int)
  | getMsb (msbBits : Nat) (totalBits : Int)
  | base64Enc (b : Nat)
  deriving DecidableEq, Repr

/-- What `base64_decode` may record: at most 24 bits, and shifts by at most 16. -/
def BitEvent.DecodeBounds : BitEvent → Prop
  | counted numBits => numBits ≤ 24
  | getMsb msbBits totalBits => msbBits = 8 ∧ 0 ≤ totalBits - 8 ∧ totalBits - 8 ≤ 16
  | base64Enc _ => False

def BitEvent.EncodeBounds : BitEvent → Prop
  | counted numBits => 0 ≤ numBits ∧ numBits ≤ 24
  | getMsb msbBits totalBits => msbBits = 6 ∧ 0 ≤ totalBits - 6 ∧ totalBits - 6 ≤ 18
  | base64Enc b => b < 64

abbrev Recorded := Coro (List BitEvent) Exn

namespace Recorded

def note (e : BitEvent) : Recorded Unit := Coro.modify fun trace => trace ++ [e]

def getMsb (msbBits num : Nat) (totalBits : Int) : Recorded Nat := do
  note (.getMsb msbBits totalBits)
  pure (CppEvent.getMsb msbBits num totalBits.toNat)

/-- `base64_enc`, with its default branch. -/
def base64Enc (b : Nat) : Recorded Byte := do
  note (.base64Enc b)
  if b ≤ 63 then pure (CppEvent.base64Enc b)
  else Coro.fail (.runtimeError "base64 encode out of range")

/-- One round of `for (; num_bits > 0; num_bits -= width) result.push_back(f(get_msb<width>(num,
num_bits)))`; the conversion to `uint8_t` is that of the argument. -/
def groupRound (width num : Nat) (f : Nat → Recorded Byte) :
    Bytes × Int → Recorded (Bytes × Int ⊕ Bytes × Int) := fun (result, numBits) =>
  if 0 < numBits then do
    let group ← getMsb width num numBits
    let c ← f (group % 2 ^ 8)
    pure (.inl (result ++ [c], numBits - width))
  else pure (.inr (result, numBits))

def groupLoop (width num : Nat) (f : Nat → Recorded Byte) (result : Bytes) (numBits : Int) :
    Recorded (Bytes × Int) :=
  Coro.loop (fun _ => numBits.toNat + 1) (groupRound width num f) (result, numBits)

/-- One round of the loop of `base64_encode`, on the result, `num` and `num_bits`. -/
def encodeRound : Bytes × Nat × Int → Byte → Recorded (Bytes × Nat × Int) :=
  fun (result, num, numBits) b => do
    let num := (num * 2 ^ 8 + b.toNat) % 2 ^ 64
    let numBits := numBits + 8
    note (.counted numBits)
    if numBits % 6 ≠ 0 then pure (result, num, numBits)
    else do
      let (result, numBits) ← groupLoop 6 num base64Enc result numBits
      pure (result, num, numBits)

/-- What `base64_encode` does behind its loop. -/
def finish : Bytes × Nat × Int → Recorded Bytes := fun (result, num, numBits) => do
  let paddingBits : Nat := if numBits = 8 then 2 * 2 else if numBits = 2 * 8 then 2 else 0
  let num := num * 2 ^ paddingBits % 2 ^ 64
  let numBits := numBits + paddingBits
  note (.counted numBits)
  let (result, _) ← groupLoop 6 num base64Enc result numBits
  pure (result ++ List.replicate (paddingBits / 2) '='.toUInt8)

def base64Encode (data : Bytes) : Recorded Bytes := do
  let e ← data.foldlM encodeRound ([], 0, 0)
  finish e

def decodeRound (d : Decoder) (c : Byte) : Recorded Decoder := do
  let (num, numBits) ←
    if c ≠ '='.toUInt8 then do
      let b ← Coro.ofExcept (base64Dec c)
      pure ((d.num * 2 ^ 6 + b) % 2 ^ 64, d.numBits + 6)
    else pure (d.num / 2 ^ 2, d.numBits - 2)
  note (.counted numBits)
  if numBits % 8 ≠ 0 then pure { d with num := num, numBits := numBits }
  else do
    let (result, numBits) ← groupLoop 8 num (fun b => pure (UInt8.ofNat b)) d.result numBits
    pure { result := result, num := num, numBits := numBits }

def base64Decode (str : Bytes) : Recorded Bytes := do
  let d ← str.foldlM decodeRound { result := [], num := 0, numBits := 0 }
  pure d.result

/-! ## The inner loops -/

theorem run_note_bind {α : Type} (e : BitEvent) (f : Unit → Recorded α) (trace : List BitEvent) :
    (note e >>= f).run trace = (f ()).run (trace ++ [e]) := rfl

theorem groups_succ (width num k : Nat) (hwidth : 0 < width) : groups width num (width * (k + 1)) =
    CppEvent.getMsb width num (width * (k + 1)) :: groups width num (width * k) := by
  have hdiv (k : Nat) : width * k / width = k := Nat.mul_div_cancel_left k hwidth
  rw [groups, groups, hdiv, hdiv, List.range_succ_eq_map, List.map_cons, List.map_map, Nat.zero_mul,
    Nat.sub_zero]
  congr 1
  refine List.map_congr_left fun i _ => ?_
  simp only [Function.comp_apply, Nat.succ_mul, Nat.mul_succ]
  congr 1
  omega

theorem getMsb_lt (width num totalBits : Nat) : CppEvent.getMsb width num totalBits < 2 ^ width :=
  Nat.mod_lt _ (Nat.two_pow_pos width)

section Groups

variable {width num : Nat} {f : Nat → Recorded Byte} {put : Nat → Byte} {events : Nat → List BitEvent}

/-- The loop over a number of bits that is `k` times the width calls `get_msb` for each multiple. -/
theorem iterate_groupRound (hwidth : 0 < width)
    (hf : ∀ group < 2 ^ width, ∀ trace,
      (f (group % 2 ^ 8)).run trace = (.returned (put group), trace ++ events group)) (k : Nat) :
    ∀ (rounds : Nat) (result : Bytes) (trace : List BitEvent), k < rounds → ∃ more,
      (Coro.iterate (groupRound width num f) rounds (result, (width * k : Nat))).run trace =
        (.returned (result ++ (groups width num (width * k)).map put, 0), trace ++ more) ∧
      ∀ e ∈ more, (∃ j, 1 ≤ j ∧ j ≤ k ∧ e = .getMsb width (width * j : Nat)) ∨
        ∃ group < 2 ^ width, e ∈ events group := by
  induction k with
  | zero =>
    intro rounds result trace hrounds
    obtain ⟨rounds, rfl⟩ := Nat.exists_eq_succ_of_ne_zero (by omega : rounds ≠ 0)
    have hround : (groupRound width num f (result, (width * 0 : Nat))).run trace =
        (.returned (.inr (result, 0)), trace) := by
      rw [groupRound, if_neg (by omega)]
      rfl
    refine ⟨[], ?_, by simp⟩
    rw [Coro.iterate_inr hround, Nat.mul_zero, groups, Nat.zero_div, List.range_zero, List.map_nil,
      List.map_nil, List.append_nil, List.append_nil]
  | succ k ih =>
    intro rounds result trace hrounds
    obtain ⟨rounds, rfl⟩ := Nat.exists_eq_succ_of_ne_zero (by omega : rounds ≠ 0)
    let group := CppEvent.getMsb width num (width * (k + 1))
    have hpos : 0 < width * (k + 1) := Nat.mul_pos hwidth k.succ_pos
    have hgroup : group < 2 ^ width := getMsb_lt width num _
    have hleft : ((width * (k + 1) : Nat) : Int) - width = (width * k : Nat) := by
      rw [Nat.mul_succ, Nat.cast_add, Int.add_sub_cancel]
    have hround : (groupRound width num f (result, (width * (k + 1) : Nat))).run trace =
        (.returned (.inl (result ++ [put group], ((width * k : Nat) : Int))),
          trace ++ ([.getMsb width (width * (k + 1) : Nat)] ++ events group)) := by
      have hmsb : (getMsb width num (width * (k + 1) : Nat)).run trace =
          (.returned group, trace ++ [.getMsb width (width * (k + 1) : Nat)]) := rfl
      rw [groupRound, if_pos (by omega), Coro.bind_returned _ hmsb,
        Coro.bind_returned _ (hf group hgroup _), Coro.run_pure, hleft, List.append_assoc]
    obtain ⟨more, hrun, hmore⟩ := ih rounds (result ++ [put group])
      (trace ++ ([.getMsb width (width * (k + 1) : Nat)] ++ events group)) (by omega)
    refine ⟨([.getMsb width (width * (k + 1) : Nat)] ++ events group) ++ more, ?_, fun e he => ?_⟩
    · rw [Coro.iterate_inl hround, hrun, groups_succ width num k hwidth, List.map_cons,
        List.append_assoc, List.append_assoc]
      rfl
    · rw [List.mem_append, List.mem_append, List.mem_singleton] at he
      rcases he with (rfl | he) | he
      · exact .inl ⟨k + 1, by omega, Nat.le_refl _, rfl⟩
      · exact .inr ⟨group, hgroup, he⟩
      · rcases hmore e he with ⟨j, h1, hj, rfl⟩ | hevent
        · exact .inl ⟨j, h1, by omega, rfl⟩
        · exact .inr hevent

variable (width num f put events) in
theorem groupLoop_run (hwidth : 0 < width)
    (hf : ∀ group < 2 ^ width, ∀ trace,
      (f (group % 2 ^ 8)).run trace = (.returned (put group), trace ++ events group)) (k : Nat)
    (result : Bytes) (trace : List BitEvent) : ∃ more,
      (groupLoop width num f result (width * k : Nat)).run trace =
        (.returned (result ++ (groups width num (width * k)).map put, 0), trace ++ more) ∧
      ∀ e ∈ more, (∃ j, 1 ≤ j ∧ j ≤ k ∧ e = .getMsb width (width * j : Nat)) ∨
        ∃ group < 2 ^ width, e ∈ events group := by
  have hrounds : k < (width * k : Nat) + 1 := Nat.lt_succ_of_le (Nat.le_mul_of_pos_left k hwidth)
  exact iterate_groupRound hwidth hf k _ result trace hrounds

theorem groupLoop_none {numBits : Int} (h : numBits ≤ 0) (result : Bytes) (trace : List BitEvent) :
    (groupLoop width num f result numBits).run trace = (.returned (result, numBits), trace) := by
  have hround : (groupRound width num f (result, numBits)).run trace =
      (.returned (.inr (result, numBits)), trace) := by
    rw [groupRound, if_neg (by omega)]
    rfl
  rw [groupLoop, Coro.run_loop, Coro.iterate_inr hround]

end Groups

/-! ## Decoding -/

theorem octets_run (num : Nat) {k : Nat} (hk : k ≤ 3) (result : Bytes) (trace : List BitEvent) : ∃ more,
    (groupLoop 8 num (fun b => pure (UInt8.ofNat b)) result (8 * k : Nat)).run trace =
      (.returned (result ++ (groups 8 num (8 * k)).map UInt8.ofNat, 0), trace ++ more) ∧
    ∀ e ∈ more, e.DecodeBounds := by
  obtain ⟨more, hrun, hmore⟩ := groupLoop_run 8 num (fun b => pure (UInt8.ofNat b))
    UInt8.ofNat (fun _ => []) (by decide)
    (fun group hgroup trace => by rw [Nat.mod_eq_of_lt hgroup, List.append_nil]; rfl) k result trace
  refine ⟨more, hrun, fun e he => ?_⟩
  rcases hmore e he with ⟨j, h1, hj, rfl⟩ | ⟨_, _, hnil⟩
  · refine ⟨rfl, ?_, ?_⟩ <;> omega
  · cases hnil

/-- After `n` characters: their position in a group of four gives the bits in hand modulo 8 and a bound
on them, and every group has given three bytes at most. -/
structure InHand (n : Nat) (d : Decoder) : Prop where
  bits_le : d.numBits ≤ 6 * (n % 4)
  residue : (d.numBits + 2 * (n % 4)) % 8 = 0
  length_le : d.result.length ≤ 3 * (n / 4)

/-- The decoder behind a character that has led to this `num` and this `num_bits`. -/
def emitted (d : Decoder) (num : Nat) (numBits : Int) : Decoder :=
  if numBits % 8 ≠ 0 then { d with num := num, numBits := numBits }
  else {
    result := d.result ++ (groups 8 num numBits.toNat).map UInt8.ofNat
    num := num
    numBits := min numBits 0 }

/-- What a round does when it has counted the bits. -/
def emit (d : Decoder) (num : Nat) (numBits : Int) : Recorded Decoder := do
  note (.counted numBits)
  if numBits % 8 ≠ 0 then pure { d with num := num, numBits := numBits }
  else do
    let (result, numBits) ← groupLoop 8 num (fun b => pure (UInt8.ofNat b)) d.result numBits
    pure { result := result, num := num, numBits := numBits }

/-- A character adds 6 bits or takes 2, which is the same modulo 8. -/
theorem emit_run {n : Nat} {d : Decoder} (h : InHand n d) (num : Nat) {numBits : Int}
    (hle : numBits ≤ d.numBits + 6) (hmod : (numBits - d.numBits + 2) % 8 = 0)
    (trace : List BitEvent) : ∃ more,
      (emit d num numBits).run trace = (.returned (emitted d num numBits), trace ++ more) ∧
      (∀ e ∈ more, e.DecodeBounds) ∧ InHand (n + 1) (emitted d num numBits) := by
  obtain ⟨hbits, hresidue, hlength⟩ := h
  have h24 : (BitEvent.counted numBits).DecodeBounds := by
    show numBits ≤ 24
    omega
  rw [emit, emitted, run_note_bind]
  by_cases hcheck : numBits % 8 ≠ 0
  · rw [if_pos hcheck, if_pos hcheck]
    refine ⟨[.counted numBits], rfl, by simpa using h24, ?_, ?_, ?_⟩ <;> dsimp only <;> omega
  · rw [if_neg hcheck, if_neg hcheck]
    have hfourth : n % 4 = 3 := by omega
    rcases Int.lt_or_le 0 numBits with hpos | hnonpos
    · -- one to three bytes are emitted
      obtain ⟨k, hk, rfl⟩ : ∃ k : Nat, k ≤ 3 ∧ numBits = (8 * k : Nat) :=
        ⟨(numBits / 8).toNat, by omega, by omega⟩
      obtain ⟨more, hrun, hmore⟩ := octets_run num hk d.result
        (trace ++ [.counted (8 * k : Nat)])
      have hzero : min ((8 * k : Nat) : Int) 0 = 0 := by omega
      refine ⟨.counted (8 * k : Nat) :: more, ?_, ?_, ?_⟩
      · rw [Coro.bind_returned _ hrun, hzero, Int.toNat_natCast, List.append_assoc]
        rfl
      · exact List.forall_mem_cons.mpr ⟨h24, hmore⟩
      · have hgroups : (groups 8 num (8 * k)).length = k := by
          rw [groups, List.length_map, List.length_range, Nat.mul_div_cancel_left k (by decide)]
        refine ⟨?_, ?_, ?_⟩ <;> dsimp only
        · omega
        · omega
        · rw [List.length_append, List.length_map, Int.toNat_natCast, hgroups]
          omega
    · have hmin : min numBits 0 = numBits := by omega
      have hnone : (groups 8 num numBits.toNat).map UInt8.ofNat = [] := by
        rw [Int.toNat_of_nonpos hnonpos]
        rfl
      refine ⟨[.counted numBits], ?_, by simpa using h24, ?_, ?_, ?_⟩
      · rw [Coro.bind_returned _ (groupLoop_none hnonpos d.result _), hnone, hmin, List.append_nil]
        rfl
      all_goals dsimp only
      · omega
      · omega
      · rw [hnone, List.append_nil]
        omega

theorem step_padding_emitted (d : Decoder) :
    d.step '='.toUInt8 = .ok (emitted d (d.num / 2 ^ 2) (d.numBits - 2)) := by
  rw [Decoder.step, if_neg (by simp), emitted]
  exact (apply_ite Except.ok _ _ _).symm

theorem step_letter_emitted (d : Decoder) {c : Byte} (hc : c ≠ '='.toUInt8) :
    d.step c = (base64Dec c).map fun b =>
      emitted d ((d.num * 2 ^ 6 + b) % 2 ^ 64) (d.numBits + 6) := by
  rw [Decoder.step, if_pos hc]
  cases base64Dec c with
  | error e => rfl
  | ok b => exact (apply_ite Except.ok _ _ _).symm

theorem decodeRound_run {n : Nat} {d : Decoder} (h : InHand n d) (c : Byte) (trace : List BitEvent) :
    ∃ more, (decodeRound d c).run trace = (Coro.ofExcept (d.step c)).run (trace ++ more) ∧
      (∀ e ∈ more, e.DecodeBounds) ∧ ∀ d', d.step c = .ok d' → InHand (n + 1) d' := by
  by_cases hc : c = '='.toUInt8
  · subst hc
    obtain ⟨more, hrun, hmore, hnext⟩ := emit_run h (d.num / 2 ^ 2)
      (by omega : d.numBits - 2 ≤ d.numBits + 6) (by omega) trace
    refine ⟨more, ?_, hmore, ?_⟩
    · rw [step_padding_emitted]
      exact hrun
    · rintro d' hd
      rw [step_padding_emitted] at hd
      rwa [← Except.ok.inj hd]
  · rw [step_letter_emitted d hc]
    cases hdec : base64Dec c with
    | error e =>
      refine ⟨[], ?_, by simp, fun d' hd => by cases hd⟩
      rw [decodeRound, if_pos hc, hdec, List.append_nil]
      rfl
    | ok b =>
      obtain ⟨more, hrun, hmore, hnext⟩ := emit_run h ((d.num * 2 ^ 6 + b) % 2 ^ 64)
        (by omega : d.numBits + 6 ≤ d.numBits + 6) (by omega) trace
      refine ⟨more, ?_, hmore, fun d' hd => ?_⟩
      · rw [decodeRound, if_pos hc, hdec]
        exact hrun
      · rwa [← Except.ok.inj hd]

theorem foldlM_decodeRound (str : Bytes) : ∀ {n : Nat} {d : Decoder}, InHand n d →
    ∀ trace, ∃ more, (str.foldlM decodeRound d).run trace =
        (Coro.ofExcept (str.foldlM Decoder.step d)).run (trace ++ more) ∧
      (∀ e ∈ more, e.DecodeBounds) ∧
      ∀ d', str.foldlM Decoder.step d = .ok d' → InHand (n + str.length) d' := by
  induction str with
  | nil =>
    intro n d h trace
    refine ⟨[], by rw [List.append_nil]; rfl, by simp, fun d' hd => ?_⟩
    rwa [← Except.ok.inj hd]
  | cons c str ih =>
    intro n d h trace
    obtain ⟨first, hround, hfirst, hnext⟩ := decodeRound_run h c trace
    simp only [List.foldlM_cons]
    cases hstep : d.step c with
    | error e =>
      rw [hstep] at hround
      refine ⟨first, ?_, hfirst, fun d' hd => by cases hd⟩
      rw [Coro.bind_threw _ hround]
      rfl
    | ok d₁ =>
      rw [hstep] at hround
      obtain ⟨more, hrun, hmore, hlast⟩ := ih (hnext d₁ hstep) (trace ++ first)
      refine ⟨first ++ more, ?_, fun e he => ?_, fun d' hd => ?_⟩
      · rw [Coro.bind_returned _ hround, hrun, List.append_assoc]
        rfl
      · exact (List.mem_append.mp he).elim (hfirst e) (hmore e)
      · have := hlast d' hd
        rwa [List.length_cons, ← Nat.add_assoc, Nat.add_right_comm]

theorem inHand_new : InHand 0 { result := [], num := 0, numBits := 0 } :=
  ⟨Int.le_refl 0, rfl, Nat.le_refl 0⟩

theorem base64Decode_run (str : Bytes) : ∃ trace,
    (base64Decode str).run [] = (Coro.ofExcept (CppEvent.base64Decode str)).run trace ∧
      (∀ e ∈ trace, e.DecodeBounds) ∧
      ∀ data, CppEvent.base64Decode str = .ok data → data.length ≤ 3 * (str.length / 4) := by
  obtain ⟨trace, hrun, htrace, hlast⟩ := foldlM_decodeRound str inHand_new []
  rw [List.nil_append] at hrun
  refine ⟨trace, ?_, htrace, fun data hdata => ?_⟩
  · rw [base64Decode, CppEvent.base64Decode]
    cases hloop : str.foldlM Decoder.step { result := [], num := 0, numBits := 0 } with
    | error e =>
      rw [hloop] at hrun
      rw [Coro.bind_threw _ hrun]
      rfl
    | ok d =>
      rw [hloop] at hrun
      rw [Coro.bind_returned _ hrun]
      rfl
  · rw [CppEvent.base64Decode] at hdata
    cases hloop : str.foldlM Decoder.step { result := [], num := 0, numBits := 0 } with
    | error e =>
      rw [hloop] at hdata
      cases hdata
    | ok d =>
      rw [hloop] at hdata
      obtain rfl : d.result = data := Except.ok.inj hdata
      have := (hlast d hloop).length_le
      rwa [Nat.zero_add] at this

/-! ## Encoding -/

/-- The letters of up to 24 bits; no argument of `base64_enc` is out of its range. -/
theorem letters_run (num : Nat) {k : Nat} (hk : k ≤ 4) (result : Bytes) (trace : List BitEvent) : ∃ more,
    (groupLoop 6 num base64Enc result (6 * k : Nat)).run trace =
      (.returned (result ++ (groups 6 num (6 * k)).map CppEvent.base64Enc, 0), trace ++ more) ∧
    ∀ e ∈ more, e.EncodeBounds := by
  obtain ⟨more, hrun, hmore⟩ := groupLoop_run 6 num base64Enc CppEvent.base64Enc
    (fun b => [.base64Enc b]) (by decide)
    (fun group hgroup trace => by
      rw [Nat.mod_eq_of_lt (hgroup.trans (by decide)), base64Enc, run_note_bind,
        if_pos (by omega), Coro.run_pure]) k result trace
  refine ⟨more, hrun, fun e he => ?_⟩
  rcases hmore e he with ⟨j, h1, hj, rfl⟩ | ⟨group, hgroup, hevent⟩
  · refine ⟨rfl, ?_, ?_⟩ <;> omega
  · obtain rfl := List.mem_singleton.mp hevent
    exact hgroup

theorem encodeRound_run {n : Nat} {e : Encoder} (h : e.numBits = 8 * (n % 3)) (b : Byte)
    (trace : List BitEvent) : ∃ more,
      (encodeRound (e.result, e.num, e.numBits) b).run trace =
        (.returned ((e.step b).result, (e.step b).num, ((e.step b).numBits : Int)), trace ++ more) ∧
      (∀ e ∈ more, e.EncodeBounds) ∧ (e.step b).numBits = 8 * ((n + 1) % 3) := by
  have hbounds : (BitEvent.counted (e.numBits + 8)).EncodeBounds := by
    refine ⟨?_, ?_⟩ <;> omega
  rw [encodeRound, run_note_bind, Encoder.step]
  by_cases hcheck : (e.numBits + 8) % 6 ≠ 0
  · have hshort : n % 3 ≠ 2 := fun h2 => hcheck (by rw [h, h2])
    rw [if_pos (by omega), if_pos hcheck]
    exact ⟨[.counted (e.numBits + 8)], rfl, by simpa using hbounds, by dsimp only; omega⟩
  · rw [if_neg (by omega), if_neg hcheck]
    have hfull : e.numBits + 8 = 6 * 4 := by omega
    obtain ⟨more, hrun, hmore⟩ := letters_run ((e.num * 2 ^ 8 + b.toNat) % 2 ^ 64)
      (Nat.le_refl 4) e.result (trace ++ [.counted (e.numBits + 8)])
    have hcast : ((e.numBits : Int) + 8) = (6 * 4 : Nat) := by omega
    refine ⟨.counted (e.numBits + 8) :: more, ?_, List.forall_mem_cons.mpr ⟨hbounds, hmore⟩,
      by dsimp only; omega⟩
    rw [hcast] at hrun ⊢
    rw [Coro.bind_returned _ hrun, hfull, List.append_assoc]
    rfl

theorem foldlM_encodeRound (data : Bytes) : ∀ {n : Nat} {e : Encoder}, e.numBits = 8 * (n % 3) →
    ∀ trace, ∃ more, (data.foldlM encodeRound (e.result, e.num, (e.numBits : Int))).run trace =
        (.returned ((data.foldl Encoder.step e).result, (data.foldl Encoder.step e).num,
          ((data.foldl Encoder.step e).numBits : Int)), trace ++ more) ∧
      (∀ e ∈ more, e.EncodeBounds) ∧
      (data.foldl Encoder.step e).numBits = 8 * ((n + data.length) % 3) := by
  induction data with
  | nil => exact fun h trace => ⟨[], by rw [List.append_nil]; rfl, by simp, h⟩
  | cons b data ih =>
    intro n e h trace
    obtain ⟨first, hround, hfirst, hnext⟩ := encodeRound_run h b trace
    obtain ⟨more, hrun, hmore, hlast⟩ := ih hnext (trace ++ first)
    refine ⟨first ++ more, ?_, fun e he => (List.mem_append.mp he).elim (hfirst e) (hmore e), ?_⟩
    · rw [List.foldlM_cons, Coro.bind_returned _ hround, hrun, List.append_assoc, List.foldl_cons]
    · rw [List.foldl_cons, hlast, List.length_cons]
      omega

theorem finish_run {n : Nat} {e : Encoder} (h : e.numBits = 8 * (n % 3)) (trace : List BitEvent) :
    ∃ more, (finish (e.result, e.num, e.numBits)).run trace = (.returned e.finish, trace ++ more) ∧
      ∀ e ∈ more, e.EncodeBounds := by
  obtain ⟨paddingBits, k, hpadding, hnat, hk, hbits⟩ : ∃ paddingBits k : Nat,
      (if (e.numBits : Int) = 8 then 2 * 2 else if (e.numBits : Int) = 2 * 8 then 2 else 0) =
        paddingBits ∧
      (if e.numBits = 8 then 4 else if e.numBits = 2 * 8 then 2 else 0) = paddingBits ∧ k ≤ 3 ∧
      e.numBits + paddingBits = 6 * k := by
    have hcases : e.numBits = 0 ∨ e.numBits = 8 ∨ e.numBits = 16 := by omega
    rcases hcases with h0 | h8 | h16
    · exact ⟨0, 0, by simp [h0], by simp [h0], by omega, by omega⟩
    · exact ⟨4, 2, by simp [h8], by simp [h8], by omega, by omega⟩
    · exact ⟨2, 3, by simp [h16], by simp [h16], by omega, by omega⟩
  have hcast : (e.numBits : Int) + paddingBits = (6 * k : Nat) := by omega
  obtain ⟨more, hrun, hmore⟩ := letters_run (e.num * 2 ^ paddingBits % 2 ^ 64) (by omega : k ≤ 4)
    e.result (trace ++ [.counted (6 * k : Nat)])
  refine ⟨.counted (6 * k : Nat) :: more, ?_, List.forall_mem_cons.mpr ⟨⟨?_, ?_⟩, hmore⟩⟩
  · rw [finish, Encoder.finish]
    dsimp only
    rw [hpadding, hnat, hcast, hbits, run_note_bind, Coro.bind_returned _ hrun,
      List.append_cons trace _ more]
    rfl
  · omega
  · omega

theorem base64Encode_run (data : Bytes) : ∃ trace,
    (base64Encode data).run [] = (.returned (CppEvent.base64Encode data), trace) ∧
      ∀ e ∈ trace, e.EncodeBounds := by
  let e : Encoder := data.foldl Encoder.step { result := [], num := 0, numBits := 0 }
  obtain ⟨trace, hrun, htrace, hlast⟩ := foldlM_encodeRound data
    (n := 0) (e := { result := [], num := 0, numBits := 0 }) rfl []
  obtain ⟨more, hfinish, hmore⟩ := finish_run hlast ([] ++ trace)
  have hloop : (data.foldlM encodeRound ([], 0, 0)).run [] =
      (.returned (e.result, e.num, (e.numBits : Int)), [] ++ trace) := hrun
  refine ⟨[] ++ trace ++ more, ?_, fun e he => ?_⟩
  · rw [base64Encode, Coro.bind_returned _ hloop]
    exact hfinish
  · rw [List.nil_append] at he
    exact (List.mem_append.mp he).elim (htrace e) (hmore e)

end Recorded

/-- The record of `base64_decode` is within its bounds for every text, up to the character at which it
throws if there is one, and it emits at most three bytes for four characters; the record of
`base64_encode` is within its bounds for all data, and its default branch is never taken. -/
theorem base64_bits :
    (∀ str, ∃ trace, (Recorded.base64Decode str).run [] =
        (Coro.ofExcept (base64Decode str)).run trace ∧ ∀ e ∈ trace, e.DecodeBounds) ∧
      (∀ str data, base64Decode str = .ok data → data.length ≤ 3 * (str.length / 4)) ∧
      ∀ data, ∃ trace, (Recorded.base64Encode data).run [] = (.returned (base64Encode data), trace) ∧
        ∀ e ∈ trace, e.EncodeBounds := by
  refine ⟨fun str => ?_, fun str data hdata => ?_, Recorded.base64Encode_run⟩
  · obtain ⟨trace, hrun, htrace, -⟩ := Recorded.base64Decode_run str
    exact ⟨trace, hrun, htrace⟩
  · obtain ⟨-, -, -, hlength⟩ := Recorded.base64Decode_run str
    exact hlength data hdata

end CppEvent
