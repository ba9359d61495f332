import CppEvent.Base.Charconv
import CppEvent.Crypto.Base64
import CppEvent.Postgres.Scram

/-!
# Agreement of the two sides of an exchange

A server that keeps what RFC 5802 has it keep (`ScramServer`), and the client of `scram.cpp` against
it. The client finds the nonce, the salt and the iteration count in the server's first message
(`serverParams_firstMsg`, `convertToNum_toChars`), so that both sides salt the same password and
sign the same messages: `Scram.exchange_agrees`.
-/

namespace CppEvent

open Coroutine

/-! ## Decimal numbers -/

theorem le_leading (text : Bytes) (acc : Nat) :
    acc ≤ (Numeral.leading (digit 10) 10 acc text).1 := by
  induction text generalizing acc with
  | nil => exact Nat.le_refl acc
  | cons c cs ih =>
    rw [Numeral.leading]
    cases digit 10 c with
    | none => exact Nat.le_refl acc
    | some d =>
      have := ih (acc * 10 + d)
      dsimp only
      omega

theorem toInt8_digit {c : Byte} {d : Nat} (h : digit 10 c = some d) : c.toInt8.toInt - 48 = d := by
  have hall : ∀ d < 10, (UInt8.ofNat (48 + d)).toInt8.toInt - 48 = d := by decide
  rw [digit, Option.filter_eq_some_iff] at h
  obtain ⟨hvalue, hlt⟩ := h
  have hd : d < 10 := of_decide_eq_true hlt
  have hc : c = UInt8.ofNat (48 + d) := by
    apply UInt8.toNat_inj.mp
    rw [UInt8.toNat_ofNat']
    rw [digitValue] at hvalue
    split at hvalue
    · rename_i hle
      have := UInt8.le_iff_toNat_le.mp hle.1
      have h48 : (48 : UInt8).toNat = 48 := rfl
      have := Option.some.inj hvalue
      omega
    · split at hvalue
      · rename_i hle
        have := UInt8.le_iff_toNat_le.mp hle.1
        have h97 : (97 : UInt8).toNat = 97 := rfl
        have := Option.some.inj hvalue
        omega
      · split at hvalue
        · rename_i hle
          have := UInt8.le_iff_toNat_le.mp hle.1
          have h65 : (65 : UInt8).toNat = 65 := rfl
          have := Option.some.inj hvalue
          omega
        · cases hvalue
  rw [hc]
  exact hall d hd

namespace Scram

theorem convertToNum_leading (text : Bytes) (hdigits : ∀ c ∈ text, (digit 10 c).isSome) (acc : Nat)
    (hlt : (Numeral.leading (digit 10) 10 acc text).1 < 2 ^ 63) :
    text.foldlM nextNum (acc : Int) =
      some ((Numeral.leading (digit 10) 10 acc text).1 : Int) := by
  induction text generalizing acc with
  | nil => rfl
  | cons c cs ih =>
    obtain ⟨d, hd⟩ := Option.isSome_iff_exists.mp (hdigits c List.mem_cons_self)
    simp only [Numeral.leading, hd] at hlt ⊢
    have hle := le_leading cs (acc * 10 + d)
    have hnext : nextNum acc c = some ((acc * 10 + d : Nat) : Int) := by
      have hproduct : inLong ((acc : Int) * 10) = some ((acc : Int) * 10) :=
        inLong_eq_some_iff.mpr ⟨by omega, rfl⟩
      have hsum : inLong ((acc : Int) * 10 + d) = some ((acc * 10 + d : Nat) : Int) :=
        inLong_eq_some_iff.mpr ⟨by omega, by omega⟩
      rw [nextNum, hproduct, toInt8_digit hd, Option.bind_eq_bind, Option.bind_some, hsum]
    rw [List.foldlM_cons, hnext]
    exact ih (fun c hc => hdigits c (List.mem_cons_of_mem _ hc)) _ hlt

theorem convertToNum_toChars {n : Nat} (h : n < 2 ^ 63) : convertToNum (toChars 10 n) = some n := by
  obtain ⟨⟨-, hdigits⟩, hvalue⟩ := @toChars_numeral 10 (by omega) (by omega) n
  rw [Numeral.value] at hvalue
  have hlead := convertToNum_leading (toChars 10 n) hdigits 0 (by omega)
  rw [hvalue] at hlead
  exact hlead

/-! ## The attributes of a message -/

theorem paramsFrom_append {text : Bytes} (h : ','.toUInt8 ∉ text) (param rest : Bytes) :
    paramsFrom param (text ++ rest) = paramsFrom (param ++ text) rest := by
  induction text generalizing param with
  | nil => rw [List.nil_append, List.append_nil]
  | cons c cs ih =>
    have hc : c ≠ ','.toUInt8 := fun hc => h (by simp [hc])
    have hstep : paramsFrom param (c :: (cs ++ rest)) = paramsFrom (param ++ [c]) (cs ++ rest) := by
      rw [paramsFrom.eq_def]
      exact if_neg hc
    rw [List.cons_append, hstep, ih (fun hcs => h (List.mem_cons_of_mem c hcs)), List.append_assoc]
    rfl

theorem paramsFrom_comma (param : Bytes) (name₀ name₁ : Byte) (rest : Bytes) :
    paramsFrom param (','.toUInt8 :: name₀ :: name₁ :: rest) = param :: paramsFrom [] rest := by
  rw [paramsFrom, if_pos rfl]

theorem paramsFrom_last {text : Bytes} (h : ','.toUInt8 ∉ text) : paramsFrom [] text = [text] := by
  have := paramsFrom_append h [] []
  rwa [List.append_nil] at this

end Scram

theorem comma_not_mem_base64Encode (data : Bytes) : ','.toUInt8 ∉ base64Encode data := by
  rw [base64Encode_eq]
  have hletter : ∀ n < 64, rfc4648Letter n ≠ ','.toUInt8 := by decide +kernel
  have hletters : ∀ bits < 2 ^ 24, ','.toUInt8 ∉ rfc4648Letters bits := by
    intro bits hbits hmem
    simp only [rfc4648Letters, List.mem_cons, List.not_mem_nil, or_false] at hmem
    rcases hmem with h | h | h | h
    all_goals exact hletter _ (by omega) h.symm
  fun_induction rfc4648 data with
  | case1 a b c data ih =>
    have ha := a.toNat_lt
    have hb := b.toNat_lt
    have hc := c.toNat_lt
    rw [List.mem_append, not_or]
    exact ⟨hletters _ (by omega), ih⟩
  | case2 a b =>
    have ha := a.toNat_lt
    have hb := b.toNat_lt
    rw [List.mem_append, not_or]
    exact ⟨fun h => hletters _ (by omega) (List.mem_of_mem_take h), by decide⟩
  | case3 a =>
    have ha := a.toNat_lt
    rw [List.mem_append, not_or]
    exact ⟨fun h => hletters _ (by omega) (List.mem_of_mem_take h), by decide⟩
  | case4 => exact List.not_mem_nil

theorem comma_not_mem_toChars (n : Nat) : ','.toUInt8 ∉ toChars 10 n := by
  obtain ⟨⟨-, hdigits⟩, -⟩ := @toChars_numeral 10 (by omega) (by omega) n
  intro hmem
  have hsome := hdigits _ hmem
  exact absurd hsome (by decide)

/-- The server's first message of RFC 5802. -/
def ScramServer.firstMsg (nonce salt : Bytes) (iterations : Nat) : Bytes :=
  ascii "r=" ++ nonce ++ ascii ",s=" ++ base64Encode salt ++ ascii ",i=" ++ toChars 10 iterations

theorem Scram.serverParams_firstMsg {nonce : Bytes} (h : ','.toUInt8 ∉ nonce) (salt : Bytes)
    (iterations : Nat) : serverParams (ScramServer.firstMsg nonce salt iterations) =
      [nonce, base64Encode salt, toChars 10 iterations] := by
  have hmsg : ScramServer.firstMsg nonce salt iterations = 'r'.toUInt8 :: '='.toUInt8 :: (nonce ++
      (','.toUInt8 :: 's'.toUInt8 :: '='.toUInt8 :: (base64Encode salt ++
        (','.toUInt8 :: 'i'.toUInt8 :: '='.toUInt8 :: toChars 10 iterations)))) := by
    simp [ScramServer.firstMsg, ascii]
  rw [hmsg, serverParams, paramsFrom_append h, paramsFrom_comma,
    paramsFrom_append (comma_not_mem_base64Encode salt), paramsFrom_comma,
    paramsFrom_last (comma_not_mem_toChars iterations), List.nil_append, List.nil_append]

/-! ## The server -/

namespace ScramServer

variable (hmac : KeyBuffer → Bytes → KeyBuffer) (sha256 : KeyBuffer → KeyBuffer)

/-- `client-first-message-bare`: what stands behind the header `n,,`. -/
def clientFirstBare (clientFirst : Bytes) : Bytes := clientFirst.drop 3

/-- The client's final message, split at its last comma: what the proof covers, and the proof. -/
def splitFinal (clientFinal : Bytes) : Bytes × Bytes :=
  ((clientFinal.reverse.dropWhile (· ≠ ','.toUInt8)).tail.reverse,
    (clientFinal.reverse.takeWhile (· ≠ ','.toUInt8)).reverse)

/-- `AuthMessage`, of the messages as the server saw and sent them. -/
def authMessage (clientFirst serverFirst clientFinal : Bytes) : Bytes :=
  clientFirstBare clientFirst ++ ascii "," ++ serverFirst ++ ascii "," ++ (splitFinal clientFinal).1

/-- Whether the server accepts the client's proof, with what it stored of the password. -/
def accepts (storedKey : KeyBuffer) (clientFirst serverFirst clientFinal : Bytes) : Bool :=
  match (splitFinal clientFinal).2 with
  | p :: eq :: text =>
      p = 'p'.toUInt8 && eq = '='.toUInt8 &&
      match base64Decode text with
      | .ok proof =>
          if h : proof.length = 32 then
            sha256 (Vector.zipWith (· ^^^ ·) (⟨proof.toArray, h⟩ : KeyBuffer)
              (hmac storedKey (authMessage clientFirst serverFirst clientFinal))) == storedKey
          else false
      | .error _ => false
  | _ => false

def finalMsg (serverKey : KeyBuffer) (clientFirst serverFirst clientFinal : Bytes) : Bytes :=
  ascii "v=" ++
    base64Encode (hmac serverKey (authMessage clientFirst serverFirst clientFinal)).toList

theorem splitFinal_append {covered proof : Bytes} (h : ','.toUInt8 ∉ proof) :
    splitFinal (covered ++ ','.toUInt8 :: proof) = (covered, proof) := by
  have hrev : (covered ++ ','.toUInt8 :: proof).reverse =
      proof.reverse ++ ','.toUInt8 :: covered.reverse := by simp
  have hall : ∀ c ∈ proof.reverse, (fun c : Byte => decide (c ≠ ','.toUInt8)) c := by
    intro c hc
    rw [List.mem_reverse] at hc
    exact decide_eq_true fun hcomma => h (hcomma ▸ hc)
  rw [splitFinal, hrev, List.dropWhile_append_of_pos hall, List.takeWhile_append_of_pos hall]
  simp

theorem splitFinal_proof (covered : Bytes) (proof : KeyBuffer) :
    splitFinal (covered ++ ascii ",p=" ++ base64Encode proof.toList) =
      (covered, 'p'.toUInt8 :: '='.toUInt8 :: base64Encode proof.toList) := by
  have hcomma : ','.toUInt8 ∉ 'p'.toUInt8 :: '='.toUInt8 :: base64Encode proof.toList := by
    rw [List.mem_cons, List.mem_cons, not_or, not_or]
    exact ⟨by decide, by decide, comma_not_mem_base64Encode _⟩
  have hfinal : covered ++ ascii ",p=" ++ base64Encode proof.toList =
      covered ++ ','.toUInt8 :: 'p'.toUInt8 :: '='.toUInt8 :: base64Encode proof.toList := by
    simp [ascii]
  rw [hfinal, splitFinal_append hcomma]

end ScramServer

/-! ## The exchange -/

/-- The primitives, of functions that cannot fail. -/
def Crypto.total (pbkdf2 : Bytes → Bytes → Nat → KeyBuffer) (hmac : KeyBuffer → Bytes → KeyBuffer)
    (sha256 : KeyBuffer → KeyBuffer) : Crypto where
  pbkdf2 := fun pass salt iter => .ok (pbkdf2 pass salt iter)
  hmac := fun key data => .ok (hmac key data)
  sha256 := fun data => .ok (sha256 data)

theorem zipWith_xor_cancel (a b : KeyBuffer) :
    Vector.zipWith (· ^^^ ·) (Vector.zipWith (· ^^^ ·) a b) b = a := by
  ext i hi
  simp

namespace Scram

variable (pbkdf2 : Bytes → Bytes → Nat → KeyBuffer) (hmac : KeyBuffer → Bytes → KeyBuffer)
  (sha256 : KeyBuffer → KeyBuffer)

theorem resolveServerFirstMsg_run {s : Scram} {extension : Bytes}
    (hnonce : ','.toUInt8 ∉ s.clientNonce ++ extension) (salt : Bytes) {iterations : Nat}
    (hlt : iterations < 2 ^ 63) :
    (resolveServerFirstMsg (ScramServer.firstMsg (s.clientNonce ++ extension) salt iterations)).run s =
      (.returned (), { s with
        serverFirstMsg := ScramServer.firstMsg (s.clientNonce ++ extension) salt iterations
        serverNonce := s.clientNonce ++ extension
        salt := salt
        iterations := iterations }) := by
  have hdecode : base64Decode (base64Encode salt) = .ok salt := (base64_roundTrip salt).2.2
  rw [resolveServerFirstMsg, Coro.run_modify_bind, Coro.run_get_bind,
    serverParams_firstMsg hnonce]
  dsimp only
  rw [if_neg (not_not.mpr (List.prefix_append _ _)), Coro.run_modify_bind, hdecode, Coro.ofExcept_ok,
    Coro.pure_bind, Coro.run_modify_bind, convertToNum_toChars hlt]
  rfl

theorem generateClientFirstMsg_run (s : Scram) (user nonce : Bytes) :
    (generateClientFirstMsg user nonce).run s = (.returned (ascii "n,," ++ firstMsgBare user nonce),
      { s with clientNonce := nonce, clientFirstMsgBare := firstMsgBare user nonce }) := rfl

def authMessage (s : Scram) : Bytes :=
  s.clientFirstMsgBare ++ ascii "," ++ s.serverFirstMsg ++ ascii "," ++
    (ascii "c=biws,r=" ++ s.serverNonce)

/-- The `client_proof`, of a salted password. -/
def clientProof (salted : KeyBuffer) (s : Scram) : KeyBuffer :=
  Vector.zipWith (· ^^^ ·) (hmac salted (ascii "Client Key"))
    (hmac (sha256 (hmac salted (ascii "Client Key"))) s.authMessage)

theorem generateClientFinalMsg_run {s : Scram} {iterations : Nat} (hlt : iterations < 2 ^ 63)
    (hs : s.iterations = iterations) (password : Bytes) :
    (generateClientFinalMsg (Crypto.total pbkdf2 hmac sha256) password).run s =
      (.returned (ascii "c=biws,r=" ++ s.serverNonce ++ ascii ",p=" ++
          base64Encode (clientProof hmac sha256 (pbkdf2 password s.salt iterations) s).toList),
        { s with
          expectedServerFinalMsg := ascii "v=" ++ base64Encode
            (hmac (hmac (pbkdf2 password s.salt iterations) (ascii "Server Key"))
              s.authMessage).toList }) := by
  have hiter : (s.iterations % 2 ^ 64).toNat = iterations := by omega
  rw [generateClientFinalMsg, Coro.run_get_bind, hiter]
  rfl

theorem accepts_clientProof {salted : KeyBuffer} {s : Scram} {clientFirst serverFirst covered : Bytes}
    (hauth : ScramServer.clientFirstBare clientFirst ++ ascii "," ++ serverFirst ++ ascii "," ++ covered =
      s.authMessage) :
    ScramServer.accepts hmac sha256 (sha256 (hmac salted (ascii "Client Key"))) clientFirst serverFirst
      (covered ++ ascii ",p=" ++ base64Encode (clientProof hmac sha256 salted s).toList) = true := by
  set proof := clientProof hmac sha256 salted s with hproof
  have hdecode : base64Decode (base64Encode proof.toList) = .ok proof.toList :=
    (base64_roundTrip proof.toList).2.2
  have hlength : proof.toList.length = 32 := by simp
  rw [ScramServer.accepts, ScramServer.authMessage, ScramServer.splitFinal_proof]
  dsimp only
  rw [hauth, hdecode]
  dsimp only
  rw [dif_pos hlength, show (⟨proof.toList.toArray, hlength⟩ : KeyBuffer) = proof from rfl, hproof,
    clientProof, zipWith_xor_cancel]
  simp

/-- An honest server accepts the client, and the client accepts that server and no other answer. -/
theorem exchange_agrees (s : Scram) (user nonce extension salt password : Bytes) (iterations : Nat)
    (hnonce : ','.toUInt8 ∉ nonce) (hextension : ','.toUInt8 ∉ extension)
    (hlt : iterations < 2 ^ 63) :
    let serverFirst := ScramServer.firstMsg (nonce ++ extension) salt iterations
    let salted := pbkdf2 password salt iterations
    let storedKey := sha256 (hmac salted (ascii "Client Key"))
    let serverKey := hmac salted (ascii "Server Key")
    ∃ s₁ s₂ s₃ clientFirst clientFinal,
      (generateClientFirstMsg user nonce).run s = (.returned clientFirst, s₁) ∧
      (resolveServerFirstMsg serverFirst).run s₁ = (.returned (), s₂) ∧
      (generateClientFinalMsg (Crypto.total pbkdf2 hmac sha256) password).run s₂ =
        (.returned clientFinal, s₃) ∧
      ScramServer.accepts hmac sha256 storedKey clientFirst serverFirst clientFinal = true ∧
      ∀ msg, s₃.verifyServerFinalMsg msg = true ↔
        msg = ScramServer.finalMsg hmac serverKey clientFirst serverFirst clientFinal := by
  intro serverFirst salted storedKey serverKey
  have hcomma : ','.toUInt8 ∉ nonce ++ extension := fun h =>
    (List.mem_append.mp h).elim hnonce hextension
  let s₁ : Scram := { s with
    clientNonce := nonce
    clientFirstMsgBare := firstMsgBare user nonce }
  let s₂ : Scram := { s₁ with
    serverFirstMsg := serverFirst
    serverNonce := nonce ++ extension
    salt := salt
    iterations := iterations }
  have hresolve : (resolveServerFirstMsg serverFirst).run s₁ = (.returned (), s₂) :=
    resolveServerFirstMsg_run (s := s₁) hcomma salt hlt
  have hfinal := generateClientFinalMsg_run pbkdf2 hmac sha256 (s := s₂) hlt rfl password
  refine ⟨s₁, s₂, _, _, _, generateClientFirstMsg_run s user nonce, hresolve, hfinal, ?_, fun msg => ?_⟩
  · exact accepts_clientProof hmac sha256 (s := s₂) rfl
  · rw [verifyServerFinalMsg, beq_iff_eq, ScramServer.finalMsg, ScramServer.authMessage,
      ScramServer.splitFinal_proof]
    rfl

/-- The exchange of an empty password with one round, whatever the primitives are. -/
theorem exchange_agrees_one :
    ∃ s₁ s₂ s₃ clientFirst clientFinal,
      (generateClientFirstMsg (ascii "user") (ascii "ab")).run Scram.new = (.returned clientFirst, s₁) ∧
      (resolveServerFirstMsg (ScramServer.firstMsg (ascii "ab" ++ ascii "cd") [1, 2] 1)).run s₁ =
        (.returned (), s₂) ∧
      (generateClientFinalMsg (Crypto.total (fun _ _ _ => Vector.replicate 32 1)
        (fun key _ => key) id) []).run s₂ = (.returned clientFinal, s₃) ∧
      ScramServer.accepts (fun key _ => key) id (Vector.replicate 32 1) clientFirst
        (ScramServer.firstMsg (ascii "ab" ++ ascii "cd") [1, 2] 1) clientFinal = true ∧
      ∀ msg, s₃.verifyServerFinalMsg msg = true ↔
        msg = ScramServer.finalMsg (fun key _ => key) (Vector.replicate 32 1) clientFirst
          (ScramServer.firstMsg (ascii "ab" ++ ascii "cd") [1, 2] 1) clientFinal :=
  exchange_agrees (fun _ _ _ => Vector.replicate 32 1) (fun key _ => key) id Scram.new (ascii "user")
    (ascii "ab") (ascii "cd") [1, 2] [] 1 (by decide) (by decide) (by decide)

end Scram

end CppEvent
