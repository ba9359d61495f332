import CppEvent.Http.Line
import CppEvent.Http.Util

/-!
# `http_body`

The body reader of `http_body.cpp`, a coroutine on the body and the socket it reads from. The two
reads and `skip` are the same loop (`transfer`) around a different socket operation. A read that throws
leaves with its caller what it has stored by then; `readStoring` and `readIntoStoring` throw it with
the exception.
-/

namespace CppEvent

open Coroutine

/-- `http_body` without its socket; `m_incoming` never goes below zero. -/
structure HttpBody where
  incoming : Nat
  ended : Bool
  deriving DecidableEq, Repr

/-- A body and the socket that `m_sock` refers to. -/
structure BodySocket where
  body : HttpBody
  sock : Socket

namespace HttpBody

variable {α γ ε : Type}

def onSocket (t : Coro Socket ε α) : Coro BodySocket ε α :=
  Coro.focus BodySocket.sock (fun sock b => { b with sock := sock }) t

/-- What `has_incoming` does with the line that should give a chunk size. -/
def startChunk (line : HttpLine) : Coro BodySocket Exn Bool :=
  if !line.hasValue then Coro.fail (.runtimeError "http_body has_incoming: no chunk")
  else
    match fromChars 16 line.val with
    | .ok (.ofNat 0) _ => do
        Coro.modify fun b => { b with body := { incoming := 0, ended := true } }
        let _ ← onSocket readHttpLine
        pure false
    | .ok (.ofNat n) _ => do
        Coro.modify fun b => { b with body := { b.body with incoming := n } }
        pure true
    | _ => Coro.fail (.runtimeError "http_body has_incoming: invalid chunk size")

def hasIncoming : Coro BodySocket Exn Bool := do
  let b ← Coro.get
  if 0 < b.body.incoming ∨ b.body.ended then pure (decide (0 < b.body.incoming))
  else do
    let line ← onSocket readHttpLine
    if line.isLastLine then do
      let line ← onSocket readHttpLine
      startChunk line
    else startChunk line

/-- One round of the loop of `read` and `skip`: `more` is its `has_incoming`, `op` takes the bytes of
the round from the socket, `total` is how many were taken so far. -/
def transferRoundOf (more : γ → Coro BodySocket ε Bool) (op : γ → Nat → Coro Socket ε γ) (size : Int)
    (acc : γ × Nat) : Coro BodySocket ε (γ × Nat ⊕ γ × Nat) :=
  if (acc.2 : Int) < size then do
    let more ← more acc.1
    if more then do
      let b ← Coro.get
      let n := min (size - acc.2).toNat b.body.incoming
      let got ← onSocket (op acc.1 n)
      Coro.modify fun b => { b with body := { b.body with incoming := b.body.incoming - n } }
      pure (.inl (got, acc.2 + n))
    else pure (.inr acc)
  else pure (.inr acc)

def transferRound (op : γ → Nat → Coro Socket Exn γ) (size : Int) (acc : γ × Nat) :
    Coro BodySocket Exn (γ × Nat ⊕ γ × Nat) :=
  transferRoundOf (fun _ => hasIncoming) op size acc

/-- The loop of `read` and `skip`; every round takes a byte. -/
def transfer (op : γ → Nat → Coro Socket Exn γ) (size : Int) (init : γ) :
    Coro BodySocket Exn (γ × Nat) :=
  Coro.loop (fun b => b.sock.pending.length + 1) (transferRound op size) (init, 0)

/-- The same, throwing with every exception what is stored then. -/
def transferStoring (op : γ → Nat → Coro Socket (γ × Exn) γ) (size : Int) (init : γ) :
    Coro BodySocket (γ × Exn) (γ × Nat) :=
  Coro.loop (fun b => b.sock.pending.length + 1)
    (transferRoundOf (fun got => Coro.mapError (Prod.mk got) hasIncoming) op size) (init, 0)

/-- `dest` after `bs` was stored at its front. -/
def storeAt (dest bs : Bytes) : Bytes := bs ++ dest.drop bs.length

/-- `read(void* dest, size)`, given and returning the memory from `dest` on. -/
def readInto (dest : Bytes) (size : Int) : Coro BodySocket Exn (Bytes × Nat) :=
  transfer (fun dest n => do
    let bs ← Socket.readInto n true
    pure (storeAt dest bs)) size dest

/-- `read(std::string& dest, size)`, returning what it appends. -/
def read (size : Int) : Coro BodySocket Exn (Bytes × Nat) :=
  transfer (fun got n => do
    let bs ← Socket.read n true
    pure (got ++ bs)) size []

/-- `read(void* dest, size)` for a caller that looks at the memory when it has caught an exception. -/
def readIntoStoring (dest : Bytes) (size : Int) : Coro BodySocket (Bytes × Exn) (Bytes × Nat) :=
  transferStoring (fun dest n => do
    let bs ← Coro.mapError (Prod.map (storeAt dest) id) (Socket.readIntoStoring n true)
    pure (storeAt dest bs)) size dest

/-- `read(std::string& dest, size)` for such a caller. -/
def readStoring (size : Int) : Coro BodySocket (Bytes × Exn) (Bytes × Nat) :=
  transferStoring (fun got n => do
    let bs ← Coro.mapError (Prod.map (got ++ ·) id) (Socket.readStoring n true)
    pure (got ++ bs)) size []

def skip (size : Int) : Coro BodySocket Exn Nat := do
  let (_, total) ← transfer (fun u n => do
    let _ ← Socket.skip n true
    pure u) size ()
  pure total

theorem mapError_transferStoring {op : γ → Nat → Coro Socket Exn γ}
    {opStoring : γ → Nat → Coro Socket (γ × Exn) γ}
    (hop : ∀ got n, Coro.mapError Prod.snd (opStoring got n) = op got n) (size : Int) (init : γ) :
    Coro.mapError Prod.snd (transferStoring opStoring size init) = transfer op size init := by
  rw [transferStoring, transfer, Coro.mapError_loop]
  refine congrArg (Coro.loop _ · _) (funext fun acc => ?_)
  have hmore : Coro.mapError Prod.snd (Coro.mapError (Prod.mk acc.1) hasIncoming) = hasIncoming := by
    rw [Coro.mapError_mapError]
    exact Coro.mapError_id hasIncoming
  rw [transferRound, transferRoundOf, transferRoundOf, Coro.mapError_ite, Coro.mapError_bind, hmore]
  simp only [Coro.mapError_ite, Coro.mapError_bind, Coro.mapError_pure, Coro.mapError_get,
    Coro.mapError_modify, onSocket, Coro.mapError_focus, hop]

/-- What was stored before an exception apart, the reads are the same. -/
theorem mapError_readIntoStoring (dest : Bytes) (size : Int) :
    Coro.mapError Prod.snd (readIntoStoring dest size) = readInto dest size := by
  refine mapError_transferStoring (fun dest n => ?_) size dest
  rw [Coro.mapError_bind, Coro.mapError_mapError, ← Socket.mapError_readIntoStoring]
  rfl

theorem mapError_readStoring (size : Int) :
    Coro.mapError Prod.snd (readStoring size) = read size := by
  refine mapError_transferStoring (fun got n => ?_) size []
  rw [Coro.mapError_bind, Coro.mapError_mapError, ← Socket.mapError_readStoring]
  rfl

theorem readIntoStoring_returned {dest : Bytes} {size : Int} {b b' : BodySocket} {r : Bytes × Nat}
    (h : (readInto dest size).run b = (.returned r, b')) :
    (readIntoStoring dest size).run b = (.returned r, b') := by
  rw [← mapError_readIntoStoring] at h
  exact Coro.mapError_returned_iff.mp h

theorem readStoring_returned {size : Int} {b b' : BodySocket} {r : Bytes × Nat}
    (h : (read size).run b = (.returned r, b')) :
    (readStoring size).run b = (.returned r, b') := by
  rw [← mapError_readStoring] at h
  exact Coro.mapError_returned_iff.mp h

end HttpBody

end CppEvent
