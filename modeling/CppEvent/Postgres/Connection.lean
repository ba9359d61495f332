import CppEvent.Net.Socket
import CppEvent.Postgres.Message
import CppEvent.Postgres.Result
import CppEvent.Postgres.Scram

/-!
# `pg_connection`

The client side of the protocol, `pg_connection.cpp`. `query` and `execute` call `populate_result`
without awaiting its task; the task is destroyed at the end of the statement, and a coroutine that is
still suspended in it with it (`discard`). Whatever such a call has done by then stays done, and a
recv that it issued stays in flight.
-/

namespace CppEvent

open Coroutine

/-- `pg_config`, less the limit of the pool. -/
structure PgConfig where
  user : Bytes
  password : Bytes
  database : Bytes
  deriving DecidableEq, Repr

/-- `pg_connection`, less its pointer to the pool's counter. -/
structure PgConnection where
  sock : Socket
  queryReady : Bool

namespace PgConnection

variable {α : Type}

def onSock (t : Coro Socket Exn α) : Coro PgConnection Exn α :=
  Coro.focus sock (fun s c => { c with sock := s }) t

def withRecvs (c : PgConnection) (recvs : List RecvCompletion) : PgConnection :=
  { c with sock.input.recvs := recvs }

/-- A task that is not awaited: it runs until it waits for a recv, of which none completes before it
is destroyed. Its exception goes with it. -/
def discard (t : Coro PgConnection Exn α) : Coro PgConnection Exn (Option α) := ⟨fun c =>
  match t.run (c.withRecvs []) with
  | (.returned a, c') => (.returned (some a), c'.withRecvs c.sock.input.recvs)
  | (.undefined, c') => (.undefined, c'.withRecvs c.sock.input.recvs)
  | (_, c') => (.returned none, c'.withRecvs c.sock.input.recvs)⟩

def setQueryReady (ready : Bool) : Coro PgConnection Exn Unit :=
  Coro.modify fun c => { c with queryReady := ready }

def skip (size : Int) : Coro PgConnection Exn Int := onSock (Socket.skip size true)

/-- `if (size > 0) co_await m_sock->skip(size, true)`. -/
def skipIfAny (size : Int) : Coro PgConnection Exn Int :=
  if 0 < size then skip size else pure 0

/-! ## Headers -/

def readHeader : Coro PgConnection Exn ResponseInfo := do
  let resHeader ← onSock (Socket.readInto headerSize true)
  pure (decodeHeader resHeader)

/-- One round of the loop of `get_response_info`, `size` being that of the notice before. -/
def responseRound (ignoreNotice : Bool) (size : Int) :
    Coro PgConnection Exn (Int ⊕ ResponseInfo) := do
  let _ ← skipIfAny size
  let info ← readHeader
  if ignoreNotice ∧ info.type = .noticeResponse then pure (.inl info.size) else pure (.inr info)

def getResponseInfo (ignoreNotice : Bool) : Coro PgConnection Exn ResponseInfo :=
  Coro.loop (fun c => c.sock.pending.length + 1) (responseRound ignoreNotice) 0

/-! ## Results -/

/-- `populate_result`, of a result that it returns with what it adds. -/
def populateResult (info : ResponseInfo) (result : PgResult) : Coro PgConnection Exn PgResult :=
  match info.type with
  | .rowDescription => do
      let descData ← onSock (Socket.readInto info.size true)
      match decodeRowDescription descData with
      | some cols => pure (cols.foldl PgResult.addColumn result)
      | none => Coro.stuck
  | .dataRow => do
      let rowData ← onSock (Socket.readInto info.size true)
      match decodeDataRow rowData with
      | some row => pure (result.addRow row)
      | none => Coro.stuck
  | _ => pure result

/-- The call of `populate_result` in `query` and `execute`. -/
def populateDiscarded (info : ResponseInfo) (result : PgResult) :
    Coro PgConnection Exn PgResult := do
  let populated ← discard (populateResult info result)
  pure (populated.getD result)

/-- The command tag of a completed command, without its NUL; an empty string has none to drop. -/
def readTag (size : Int) : Coro PgConnection Exn Bytes := do
  let tag ← onSock (Socket.read size true)
  if tag = [] then Coro.stuck else pure tag.dropLast

/-! ## `query` -/

/-- The `switch` of `query`; the results for the next round. -/
def querySwitch (results : PgResults) (info : ResponseInfo) : Coro PgConnection Exn PgResults :=
  match info.type with
  | .commandComplete => do
      let tag ← readTag info.size
      pure (results.push (results.back.setCommandTag tag))
  | .rowDescription | .dataRow => do
      let back ← populateDiscarded info results.back
      pure { results with back := back }
  | .emptyQueryResponse | .errorResponse => do
      let _ ← skip info.size
      pure (results.push results.back.setError)
  | .readyForQuery => do
      let _ ← skip info.size
      setQueryReady true
      pure results
  | _ => pure results

def queryRound (results : PgResults) : Coro PgConnection Exn (PgResults ⊕ PgResults) := do
  let c ← Coro.get
  if c.queryReady then pure (.inr results)
  else do
    let info ← getResponseInfo true
    let results ← querySwitch results info
    pure (.inl results)

def sendQuery (q : Bytes) : Coro PgConnection Exn Unit := do
  onSock (Socket.write (responseHeader 'Q'.toUInt8 (q.length + 1)))
  onSock (Socket.write (q ++ [0]))
  onSock Socket.flush

def receiveQuery : Coro PgConnection Exn PgResults :=
  Coro.loop (fun c => c.sock.pending.length + 1) queryRound { done := [], back := .empty }

def query (q : Bytes) : Coro PgConnection Exn (List PgResult) := do
  let c ← Coro.get
  if ¬ c.queryReady then
    Coro.fail (.runtimeError "pg_connection query_simple: Not query ready")
  else do
    sendQuery q
    setQueryReady false
    let results ← receiveQuery
    pure results.done

/-! ## `execute` and `close_sync` -/

def closeRound : Unit → Coro PgConnection Exn (Unit ⊕ Unit) := fun _ => do
  let info ← getResponseInfo true
  let _ ← skipIfAny info.size
  pure (if info.type = .readyForQuery then .inr () else .inl ())

def closeSync : Coro PgConnection Exn Unit := do
  onSock (Socket.write (['C'.toUInt8, 0, 0, 0, 6, 'P'.toUInt8, 0] ++ ['S'.toUInt8, 0, 0, 0, 4]))
  onSock Socket.flush
  Coro.loop (fun c => c.sock.pending.length + 1) closeRound ()
  setQueryReady true

/-- The `switch` of `execute`: the result for the next round or, with `inr`, the one it returns. -/
def executeSwitch (result : PgResult) (info : ResponseInfo) :
    Coro PgConnection Exn (PgResult ⊕ PgResult) :=
  match info.type with
  | .parseComplete | .bindComplete => pure (.inl result)
  | .emptyQueryResponse | .errorResponse => do
      let _ ← skip info.size
      pure (.inl result.setError)
  | .rowDescription | .dataRow => do
      let result ← populateDiscarded info result
      pure (.inl result)
  | .commandComplete => do
      let tag ← readTag info.size
      pure (.inl (result.setCommandTag tag))
  | .portalSuspended => pure (.inr result.setSuspended)
  | _ => pure (.inl result)

/-- One round of the receive loop of `execute`. The loop ends with the result and with whether
`close_sync` follows. -/
def executeRound (result : PgResult) : Coro PgConnection Exn (PgResult ⊕ PgResult × Bool) :=
  if result.type ≠ .pending then pure (.inr (result, true))
  else do
    let info ← getResponseInfo true
    let next ← executeSwitch result info
    pure (next.map id fun result => (result, false))

def execute (maxRows : Nat) : Coro PgConnection Exn PgResult := do
  onSock (Socket.write (responseHeader 'E'.toUInt8 (4 + 1)))
  onSock (Socket.write [0])
  onSock (Socket.write (writeU32Be maxRows))
  onSock (Socket.write (responseHeader 'H'.toUInt8 0))
  onSock Socket.flush
  let (result, complete) ← Coro.loop (fun c => c.sock.pending.length + 1) executeRound .empty
  if complete then do
    closeSync
    pure result
  else pure result

end PgConnection

/-! ## `init` -/

/-- A connection in `init`: its `scram`, and the random bytes that the library is going to give. -/
structure Handshake where
  conn : PgConnection
  scr : Scram
  random : Nat → Option (Vector Byte 24)

namespace Handshake

variable {α : Type} (crypt : Crypto) (config : PgConfig)

def onConn (t : Coro PgConnection Exn α) : Coro Handshake Exn α :=
  Coro.focus conn (fun c h => { h with conn := c }) t

theorem conn_isField : Coro.IsField conn (fun c h => { h with conn := c }) where
  get_set := fun _ _ => rfl
  set_set := fun _ _ _ => rfl

def onSock (t : Coro Socket Exn α) : Coro Handshake Exn α := onConn (PgConnection.onSock t)

def onScram (t : Coro Scram Exn α) : Coro Handshake Exn α :=
  Coro.focus scr (fun s h => { h with scr := s }) t

/-- `generate_random_string<CLIENT_NONCE_OCTETS>(base64_encode)`. -/
def generateRandomString : Coro Handshake Exn Bytes := ⟨fun h =>
  match h.random 0 with
  | some bytes =>
      (.returned (base64Encode bytes.toList), { h with random := fun i => h.random (i + 1) })
  | none =>
      (.threw (.runtimeError "Error generating RAND_BYTES"),
        { h with random := fun i => h.random (i + 1) })⟩

/-- `SCRAM_SHA256`, without its NUL. -/
def scramSha256 : Bytes := ascii "SCRAM-SHA-256"

/-- A message of the type `p` that is written in one piece and flushed. -/
def respond (body : Bytes) : Coro Handshake Exn Unit := do
  onSock (Socket.write (responseHeader 'p'.toUInt8 body.length))
  onSock (Socket.write body)
  onSock Socket.flush

def respondMechanisms (mechanisms : Bytes) : Coro Handshake Exn Unit :=
  if ¬ scramSha256 <:+: mechanisms then Coro.fail (.runtimeError "SCRAM mechanism not found")
  else do
    let cNonce ← generateRandomString
    let clientFirstMsg ← onScram (Scram.generateClientFirstMsg config.user cNonce)
    onSock (Socket.write
      (responseHeader 'p'.toUInt8 ((scramSha256.length + 1) + 4 + clientFirstMsg.length)))
    onSock (Socket.write (scramSha256 ++ [0]))
    onSock (Socket.write (writeU32Be clientFirstMsg.length))
    onSock (Socket.write clientFirstMsg)
    onSock Socket.flush

def respondServerFirst (serverFirstMsg : Bytes) : Coro Handshake Exn Unit := do
  onScram (Scram.resolveServerFirstMsg serverFirstMsg)
  let clientFinalMsg ← onScram (Scram.generateClientFinalMsg crypt config.password)
  respond clientFinalMsg

def handleAuth (info : ResponseInfo) : Coro Handshake Exn Unit := do
  let typeData ← onSock (Socket.readInto 4 true)
  let type := AuthType.ofCode (readU32Be (typeData.getD 0 0) (typeData.getD 1 0)
    (typeData.getD 2 0) (typeData.getD 3 0))
  let msgSize := info.size - 4
  match type with
  | .ok => pure ()
  | .clearTextPassword => respond (config.password ++ [0])
  | .sasl => do
      let saslMechanisms ← onSock (Socket.read msgSize true)
      respondMechanisms config saslMechanisms
  | .saslContinue => do
      let serverFirstMsg ← onSock (Socket.read msgSize true)
      respondServerFirst crypt config serverFirstMsg
  | .saslFinal => do
      let serverFinalMsg ← onSock (Socket.read msgSize true)
      let h ← Coro.get
      if h.scr.verifyServerFinalMsg serverFinalMsg then pure ()
      else Coro.fail (.runtimeError "SASL Auth unexpected final msg")
  | .other _ => Coro.fail (.runtimeError "Unrecognized auth method")

def startupMessage : Bytes :=
  ascii "user" ++ [0] ++ config.user ++ [0] ++
    (if config.database = [] then [] else ascii "database" ++ [0] ++ config.database ++ [0]) ++ [0]

def initSwitch (info : ResponseInfo) : Coro Handshake Exn Unit :=
  match info.type with
  | .errorResponse => Coro.fail (.runtimeError "Postgres ErrorResponse")
  | .negotiateProtocolVersion => Coro.fail (.runtimeError "Postgres Protocol Version mismatch")
  | .authentication => handleAuth crypt config info
  | .backendKeyData | .parameterStatus => do
      let _ ← onConn (PgConnection.skip info.size)
      pure ()
  | .readyForQuery => do
      let _ ← onConn (PgConnection.skip info.size)
      onConn (PgConnection.setQueryReady true)
  | _ => Coro.fail (.runtimeError "Postgres unexpected response")

def initRound : Unit → Coro Handshake Exn (Unit ⊕ Unit) := fun _ => do
  let h ← Coro.get
  if h.conn.queryReady then pure (.inr ())
  else do
    let info ← onConn (PgConnection.getResponseInfo true)
    initSwitch crypt config info
    pure (.inl ())

def init : Coro Handshake Exn Unit := do
  onSock (Socket.write
    (writeU32Be (8 + (startupMessage config).length) ++ writeU32Be (3 * 2 ^ 16 + 0)))
  onSock (Socket.write (startupMessage config))
  onSock Socket.flush
  Coro.modify fun h => { h with scr := Scram.new }
  Coro.loop (fun h => h.conn.sock.pending.length + 1) (initRound crypt config) ()

end Handshake

end CppEvent
