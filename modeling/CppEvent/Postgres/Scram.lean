import CppEvent.Crypto.Encoding
import CppEvent.Library.Coroutine

/-!
# `scram`

The client side of the exchange, `scram.cpp`. The primitives of the cryptographic library are
parameters. `exchange` is one exchange from a fresh `scram`; what the client expects of the server at
its end is the message that `expectedServerFinalMsg` computes.
-/

namespace CppEvent

open Coroutine

abbrev KeyBuffer := Vector Byte 32

/-- What stands behind `pbkdf2::derive`, `hmac` and `sha256`; each may throw. -/
structure Crypto where
  pbkdf2 (pass salt : Bytes) (iter : Nat) : Except Exn KeyBuffer
  hmac (key : KeyBuffer) (data : Bytes) : Except Exn KeyBuffer
  sha256 (data : KeyBuffer) : Except Exn KeyBuffer

/-- `scram`. `m_iterations` has no value before the first server message. -/
structure Scram where
  clientFirstMsgBare : Bytes
  clientNonce : Bytes
  serverFirstMsg : Bytes
  serverNonce : Bytes
  salt : Bytes
  iterations : Int
  expectedServerFinalMsg : Bytes
  deriving DecidableEq, Repr

namespace Scram

def new : Scram where
  clientFirstMsgBare := []
  clientNonce := []
  serverFirstMsg := []
  serverNonce := []
  salt := []
  iterations := 0
  expectedServerFinalMsg := []

/-- `n=user,r=nonce`. -/
def firstMsgBare (user clientNonce : Bytes) : Bytes :=
  ascii "n=" ++ user ++ ascii ",r=" ++ clientNonce

def generateClientFirstMsg (user clientNonce : Bytes) : Coro Scram Exn Bytes := do
  Coro.modify fun s => { s with
    clientNonce := clientNonce
    clientFirstMsgBare := firstMsgBare user clientNonce }
  let s ← Coro.get
  pure (ascii "n,," ++ s.clientFirstMsgBare)

/-- A value that a `long` has to hold; `none` if it overflows. -/
def inLong (n : Int) : Option Int := if -2 ^ 63 ≤ n ∧ n < 2 ^ 63 then some n else none

/-- `result * 10 + (c - '0')`, with a signed `char`. -/
def nextNum (result : Int) (c : Byte) : Option Int := do
  let product ← inLong (result * 10)
  inLong (product + (c.toInt8.toInt - 48))

/-- `convert_to_num`; `none` if the `long` overflows. -/
def convertToNum (input : Bytes) : Option Int := input.foldlM nextNum 0

/-- The loop of `resolve_server_first_msg` from a parameter on, of which it has seen `param`. A comma
ends the parameter and is skipped together with the name of the next one. -/
def paramsFrom (param : Bytes) : Bytes → List Bytes
  | [] => [param]
  | c :: cs =>
      if c = ','.toUInt8 then
        match cs with
        | _ :: _ :: cs => param :: paramsFrom [] cs
        | _ => [param]
      else paramsFrom (param ++ [c]) cs

/-- The parameters of a server message, from behind the name of the first one on. -/
def serverParams : Bytes → List Bytes
  | _ :: _ :: cs => paramsFrom [] cs
  | _ => []

def resolveServerFirstMsg (msg : Bytes) : Coro Scram Exn Unit := do
  Coro.modify fun s => { s with serverFirstMsg := msg }
  let s ← Coro.get
  match serverParams msg with
  | [nonce, salt, iterations] =>
      if ¬ s.clientNonce <+: nonce then
        Coro.fail (.runtimeError "Server nonce doesn't begin with client nonce")
      else do
        Coro.modify fun s => { s with serverNonce := nonce }
        let salt ← Coro.ofExcept (base64Decode salt)
        Coro.modify fun s => { s with salt := salt }
        match convertToNum iterations with
        | none => Coro.stuck
        | some n => Coro.modify fun s => { s with iterations := n }
  | _ => Coro.fail (.runtimeError "Not enough params server first message")

/-- A server message is resolved where the nonce of the client is in front of the server's, and the
salt and the iteration count can be read. -/
theorem resolve_returned_iff {s s' : Scram} {msg : Bytes} :
    (resolveServerFirstMsg msg).run s = (.returned (), s') ↔ ∃ nonce salt iterations bytes n,
      serverParams msg = [nonce, salt, iterations] ∧ s.clientNonce <+: nonce ∧
      base64Decode salt = .ok bytes ∧ convertToNum iterations = some n ∧
      s' = { s with serverFirstMsg := msg, serverNonce := nonce, salt := bytes, iterations := n } := by
  rw [resolveServerFirstMsg, Coro.run_modify_bind, Coro.run_get_bind]
  constructor
  · intro hrun
    split at hrun
    · rename_i nonce salt iterations hparams
      split at hrun
      · cases (Prod.mk.inj hrun).1
      · rename_i hfront
        rw [Coro.run_modify_bind] at hrun
        cases hsalt : base64Decode salt with
        | error e =>
          rw [hsalt] at hrun
          cases (Prod.mk.inj hrun).1
        | ok bytes =>
          rw [hsalt, Coro.ofExcept_ok, Coro.pure_bind, Coro.run_modify_bind] at hrun
          split at hrun
          · cases (Prod.mk.inj hrun).1
          · rename_i n hn
            exact ⟨nonce, salt, iterations, bytes, n, hparams, not_not.mp hfront, hsalt, hn,
              (Prod.mk.inj hrun).2.symm⟩
    · cases (Prod.mk.inj hrun).1
  · rintro ⟨nonce, salt, iterations, bytes, n, hparams, hfront, hsalt, hn, rfl⟩
    simp only [hparams]
    rw [if_neg (not_not.mpr hfront), Coro.run_modify_bind, hsalt, Coro.ofExcept_ok, Coro.pure_bind,
      Coro.run_modify_bind, hn]
    rfl

/-- What `convert_to_num` is about. -/
def countOf (text : Bytes) : Int := text.foldl (fun n c => n * 10 + (c.toInt8.toInt - 48)) 0

/-- A `long` holds all that `convert_to_num` comes upon: of each front of the text the number ten times
over, and the number with the next character. -/
def CountFits (text : Bytes) : Prop :=
  ∀ front c, front ++ [c] <+: text →
    (-2 ^ 63 ≤ countOf front * 10 ∧ countOf front * 10 < 2 ^ 63) ∧
      -2 ^ 63 ≤ countOf (front ++ [c]) ∧ countOf (front ++ [c]) < 2 ^ 63

theorem countOf_concat (front : Bytes) (c : Byte) :
    countOf (front ++ [c]) = countOf front * 10 + (c.toInt8.toInt - 48) := by
  simp [countOf]

theorem countFits_concat (front : Bytes) (c : Byte) : CountFits (front ++ [c]) ↔ CountFits front ∧
    (-2 ^ 63 ≤ countOf front * 10 ∧ countOf front * 10 < 2 ^ 63) ∧
      -2 ^ 63 ≤ countOf (front ++ [c]) ∧ countOf (front ++ [c]) < 2 ^ 63 := by
  constructor
  · intro h
    exact ⟨fun front' c' hfront => h front' c' (hfront.trans (List.prefix_append _ _)),
      h front c (List.prefix_refl _)⟩
  · rintro ⟨h, hlast⟩ front' c' hfront
    rcases List.prefix_concat_iff.mp hfront with heq | hfront
    · obtain ⟨rfl, hc⟩ := List.append_inj' heq rfl
      obtain rfl := List.singleton_inj.mp hc
      exact hlast
    · exact h front' c' hfront

theorem inLong_eq_some_iff {n m : Int} : inLong n = some m ↔ (-2 ^ 63 ≤ n ∧ n < 2 ^ 63) ∧ m = n := by
  rw [inLong, Option.ite_none_right_eq_some, Option.some.injEq, eq_comm (a := n)]

theorem convertToNum_eq_some_iff {text : Bytes} {n : Int} :
    convertToNum text = some n ↔ CountFits text ∧ n = countOf text := by
  induction text using List.reverseRecOn generalizing n with
  | nil =>
    have hnil : CountFits [] := fun front c hprefix => by simp at hprefix
    simp [convertToNum, hnil, countOf, eq_comm]
  | append_singleton front c ih =>
    have hstep : convertToNum (front ++ [c]) = (convertToNum front).bind (nextNum · c) := by
      simp [convertToNum, List.foldlM_append]
    rw [hstep, countFits_concat, countOf_concat]
    simp only [Option.bind_eq_some_iff, nextNum, Option.bind_eq_bind, inLong_eq_some_iff, ih]
    constructor
    · rintro ⟨_, ⟨hfits, rfl⟩, _, ⟨hproduct, rfl⟩, hsum, rfl⟩
      exact ⟨⟨hfits, hproduct, hsum⟩, rfl⟩
    · rintro ⟨⟨hfits, hproduct, hsum⟩, rfl⟩
      exact ⟨_, ⟨hfits, rfl⟩, _, ⟨hproduct, rfl⟩, hsum, rfl⟩

/-- A server message whose iteration count leaves `convert_to_num` undefined. -/
def overflows (msg : Bytes) : Bool :=
  match serverParams msg with
  | [_, salt, iterations] =>
      match base64Decode salt with
      | .ok _ => (convertToNum iterations).isNone
      | .error _ => false
  | _ => false

/-- It does on no message but one with three parameters, the second in Base64 and the third too great
for a `long` on the way. -/
theorem overflows_eq_false_iff {msg : Bytes} : overflows msg = false ↔
    ∀ nonce salt iterations bytes, serverParams msg = [nonce, salt, iterations] →
      base64Decode salt = .ok bytes → CountFits iterations := by
  rw [overflows]
  constructor
  · intro h nonce salt iterations bytes hparams hsalt
    rw [hparams] at h
    simp only [hsalt] at h
    obtain ⟨n, hn⟩ := Option.isSome_iff_exists.mp (by simpa using h)
    exact (convertToNum_eq_some_iff.mp hn).1
  · intro h
    split
    · rename_i nonce salt iterations hparams
      split
      · rename_i bytes hsalt
        rw [convertToNum_eq_some_iff.mpr ⟨h _ _ _ _ hparams hsalt, rfl⟩]
        rfl
      · rfl
    · rfl

theorem resolveServerFirstMsg_defined {msg : Bytes} (h : overflows msg = false) :
    Coro.Defined (resolveServerFirstMsg msg) := by
  refine (Coro.Defined.modify _).bind fun _ => Coro.Defined.get.bind fun _ => ?_
  rw [overflows] at h
  split
  · rename_i nonce salt iterations hparams
    rw [hparams] at h
    dsimp only at h
    refine .ite (.fail _) ((Coro.Defined.modify _).bind fun _ => ?_)
    cases hsalt : base64Decode salt with
    | error e =>
      rw [Coro.ofExcept_error, Coro.fail_bind]
      exact .fail e
    | ok bytes =>
      rw [hsalt] at h
      rw [Coro.ofExcept_ok, Coro.pure_bind]
      refine (Coro.Defined.modify _).bind fun _ => ?_
      cases hnum : convertToNum iterations with
      | none => simp [hnum] at h
      | some n => exact .modify _
  · exact .fail _

theorem resolveServerFirstMsg_undefined {msg : Bytes} (h : overflows msg) :
    ((resolveServerFirstMsg msg).run new).1 = .undefined := by
  rw [overflows] at h
  split at h
  · rename_i nonce salt iterations hparams
    split at h
    · rename_i bytes hsalt
      rw [Option.isNone_iff_eq_none] at h
      simp [resolveServerFirstMsg, hparams, hsalt, h, new]
    · exact absurd h (by simp)
  · exact absurd h (by simp)

def generateClientFinalMsg (crypt : Crypto) (password : Bytes) : Coro Scram Exn Bytes := do
  let s ← Coro.get
  let clientFinalMsgBare := ascii "c=biws,r=" ++ s.serverNonce
  let saltedPassword ← Coro.ofExcept
    (crypt.pbkdf2 password s.salt (s.iterations % 2 ^ 64).toNat)
  let clientKey ← Coro.ofExcept (crypt.hmac saltedPassword (ascii "Client Key"))
  let storedKey ← Coro.ofExcept (crypt.sha256 clientKey)
  let authMessage := s.clientFirstMsgBare ++ ascii "," ++ s.serverFirstMsg ++ ascii "," ++
    clientFinalMsgBare
  let clientSignature ← Coro.ofExcept (crypt.hmac storedKey authMessage)
  let clientProof := Vector.zipWith (· ^^^ ·) clientKey clientSignature
  let serverKey ← Coro.ofExcept (crypt.hmac saltedPassword (ascii "Server Key"))
  let serverSignature ← Coro.ofExcept (crypt.hmac serverKey authMessage)
  Coro.modify fun s => { s with
    expectedServerFinalMsg := ascii "v=" ++ base64Encode serverSignature.toList }
  pure (clientFinalMsgBare ++ ascii ",p=" ++ base64Encode clientProof.toList)

theorem generateClientFinalMsg_defined (crypt : Crypto) (password : Bytes) :
    Coro.Defined (generateClientFinalMsg crypt password) :=
  Coro.Defined.get.bind fun _ => (Coro.Defined.ofExcept _).bind fun _ =>
    (Coro.Defined.ofExcept _).bind fun _ => (Coro.Defined.ofExcept _).bind fun _ =>
      (Coro.Defined.ofExcept _).bind fun _ => (Coro.Defined.ofExcept _).bind fun _ =>
        (Coro.Defined.ofExcept _).bind fun _ => (Coro.Defined.modify _).bind fun _ => .pure _

def verifyServerFinalMsg (s : Scram) (msg : Bytes) : Bool := msg == s.expectedServerFinalMsg

end Scram

end CppEvent
