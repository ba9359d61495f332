import CppEvent.Library.Program
import CppEvent.Http.Body
import CppEvent.Http.Output
import CppEvent.Http.Request
import CppEvent.Http.Router

/-!
# `http_server`

The connection handler of `http_server.cpp`. Endpoints are not part of the repository: an endpoint
is a program over the public operations of `http_body` and `http_output`, which may catch what they
throw. The calls that the server makes to endpoints are kept, each with what it was given and with
what its reads into strings delivered.
-/

namespace CppEvent

open Coroutine

/-! ## Endpoints -/

/-- What an endpoint can do with its body and its response. -/
inductive ExchangeOp where
  | hasIncoming
  | readInto (dest : Bytes) (size : Int)
  | read (size : Int)
  | skip (size : Int)
  | setStatus (status : HttpStatus)
  | setHeader (name value : Bytes)
  | setContentLength (len : Int)
  | write (src : Bytes)
  | finish

abbrev ExchangeOp.Result : ExchangeOp → Type
  | hasIncoming => Bool
  | readInto _ _ => Bytes × Nat
  | read _ => Bytes × Nat
  | skip _ => Nat
  | _ => Unit

/-- What an operation throws: a read with the exception what it has stored by then. -/
abbrev ExchangeOp.Thrown : ExchangeOp → Type
  | readInto _ _ => Bytes × Exn
  | read _ => Bytes × Exn
  | _ => Exn

/-- The body of `http_endpoint::serve`: every operation returns or throws, and so does the whole. -/
abbrev Serve := Program ExchangeOp (fun op => Except op.Thrown op.Result) (Except Exn Unit)

/-- A request being served. `received` is what the reads into strings have delivered so far. -/
structure Exchange where
  body : HttpBody
  res : HttpOutput
  sock : Socket
  received : Bytes

namespace Exchange

variable {α ε : Type}

def onBody (t : Coro BodySocket ε α) : Coro Exchange ε α :=
  Coro.focus (fun e => { body := e.body, sock := e.sock })
    (fun b e => { e with body := b.body, sock := b.sock }) t

def onOutput (t : Coro OutputSocket Exn α) : Coro Exchange Exn α :=
  Coro.focus (fun e => { res := e.res, sock := e.sock })
    (fun o e => { e with res := o.res, sock := o.sock }) t

/-- What a read has stored, also if it threw. -/
def stored : Except (Bytes × Exn) (Bytes × Nat) → Bytes
  | .ok r => r.1
  | .error r => r.1

/-- An operation, with its exception if it throws one. -/
def perform : (op : ExchangeOp) → Coro Exchange Exn (Except op.Thrown op.Result)
  | .hasIncoming => Coro.attempt (onBody HttpBody.hasIncoming)
  | .readInto dest size => Coro.attempt (onBody (HttpBody.readIntoStoring dest size))
  | .read size => do
      let r ← Coro.attempt (onBody (HttpBody.readStoring size))
      Coro.modify fun e => { e with received := e.received ++ stored r }
      pure r
  | .skip size => Coro.attempt (onBody (HttpBody.skip size))
  | .setStatus status => do
      Coro.modify fun e => { e with res := e.res.setStatus status }
      pure (.ok ())
  | .setHeader name value => do
      Coro.modify fun e => { e with res := e.res.setHeader name value }
      pure (.ok ())
  | .setContentLength len => do
      let e ← Coro.get
      match e.res.setContentLength len with
      | .ok res => do
          Coro.modify fun e => { e with res := res }
          pure (.ok ())
      | .error exn => pure (.error exn)
  | .write src => Coro.attempt (onOutput (HttpOutput.write src))
  | .finish => Coro.attempt (onOutput HttpOutput.finish)

/-- `endpoint->serve(req, body, res)`. -/
def serve (p : Serve) : Coro Exchange Exn Unit := Program.run perform p >>= Coro.ofExcept

/-- `res.end()`, then `body.has_incoming()`. -/
def finish : Coro Exchange Exn Bool := do
  onOutput HttpOutput.finish
  onBody HttpBody.hasIncoming

/-- Serve a request and end its response, telling whether any of its body is left. -/
def complete (p : Serve) : Coro Exchange Exn Bool := do
  serve p
  finish

end Exchange

/-! ## The server -/

/-- A call of an endpoint: the request it was given, and what its reads into strings delivered. -/
structure Call (E : Type) where
  endpoint : E
  request : HttpRequest
  received : Bytes

structure Connection (E : Type) where
  sock : Socket
  calls : List (Call E)

/-- `http_server`: its router and the endpoints behind it; and the order in which header maps
iterate. -/
structure HttpServer (E : Type) where
  router : HttpRouter E
  serve : E → HttpRequest → Serve
  traversal : HeaderMap → List (Bytes × Bytes)

def getDefaultConnType : HttpVersion → Bytes
  | .HTTP_1_0 => ascii "close"
  | .HTTP_1_1 => ascii "keep-alive"

/-- One round of the loop over the header lines; it ends with the last line it read. -/
def headerRound (req : HttpRequest) :
    Coro Socket Exn (HttpRequest ⊕ HttpLine × HttpRequest) := do
  let line ← readHttpLine
  if line.hasValue then
    let (ok, req) := req.processHeaderLine line.val
    if ok then pure (.inl req) else pure (.inr (line, req))
  else pure (.inr (line, req))

def readHeaders (req : HttpRequest) : Coro Socket Exn (HttpLine × HttpRequest) :=
  Coro.loop (fun s => s.pending.length + 1) headerRound req

namespace HttpRequest

/-- How `on_connection` decides where the body ends; `none` is its `break`. -/
def framing (req : HttpRequest) : Option HttpBody :=
  let contentLen := (req.getHeader contentLength).getD []
  let transferEncode := (req.getHeader transferEncoding).getD []
  if contentLen ≠ [] then
    match fromChars 10 contentLen with
    | .ok (.ofNat n) _ => some { incoming := n, ended := true }
    | _ => none
  else if (findCaseInsensitive transferEncode chunked).isSome then
    some { incoming := 0, ended := false }
  else some { incoming := 0, ended := true }

def connectionType (req : HttpRequest) : Bytes :=
  (req.getHeader (ascii "connection")).getD (getDefaultConnType req.version)

end HttpRequest

namespace HttpServer

variable {E α : Type}

def onSocket (t : Coro Socket Exn α) : Coro (Connection E) Exn α :=
  Coro.focus Connection.sock (fun sock c => { c with sock := sock }) t

def opened (server : HttpServer E) (body : HttpBody) (c : Connection E) : Exchange :=
  { body := body, res := { traversal := server.traversal }, sock := c.sock, received := [] }

/-- Work on the exchange that a request opens, with the calls it makes. -/
def onExchange (server : HttpServer E) (body : HttpBody) (calls : Exchange → List (Call E))
    (t : Coro Exchange Exn α) : Coro (Connection E) Exn α :=
  Coro.focus (opened server body) (fun x c => { sock := x.sock, calls := c.calls ++ calls x }) t

/-- What the server does itself where no endpoint matches. -/
def notFound : Serve :=
  .call (.setStatus .NOT_FOUND) fun _ => .call (.setContentLength 0) fun r => .done r

def respond (server : HttpServer E) (endpoint : Option E) (req : HttpRequest) (body : HttpBody) :
    Coro (Connection E) Exn Bool :=
  match endpoint with
  | some e =>
      onExchange server body (fun x => [{ endpoint := e, request := req, received := x.received }])
        (Exchange.complete (server.serve e req))
  | none => onExchange server body (fun _ => []) (Exchange.complete notFound)

/-- The second half of a round of `on_connection`, from the body on; `inr` leaves the loop. -/
def handleRequest (server : HttpServer E) (req : HttpRequest) (body : HttpBody) :
    Coro (Connection E) Exn (Unit ⊕ Unit) :=
  match server.router.matchPath req.method req.path [] with
  | .error e => Coro.fail e
  | .ok (endpoint, params) => do
      let req := req.setPathParams params
      let more ← respond server endpoint req body
      let keep := !more && (findCaseInsensitive req.connectionType (ascii "keep-alive")).isSome
      pure (if keep then .inl () else .inr ())

/-- One round of the loop of `on_connection`; `inr` leaves the loop. -/
def connectionRound (server : HttpServer E) (_ : Unit) :
    Coro (Connection E) Exn (Unit ⊕ Unit) := do
  let reqLine ← onSocket readHttpLine
  if !reqLine.hasValue then pure (.inr ())
  else
    let (ok, req) := ({} : HttpRequest).processReqLine reqLine.val
    if !ok then pure (.inr ())
    else do
      let (headerLine, req) ← onSocket (readHeaders req)
      if !headerLine.isLastLine then pure (.inr ())
      else
        match req.framing with
        | none => pure (.inr ())
        | some body => handleRequest server req body

/-- `on_connection`; every round that is followed by another takes a request line, which may come behind
a failed recv that an endpoint has caught. More rounds make no difference (`onConnection_rounds`). -/
def onConnection (server : HttpServer E) : Coro (Connection E) Exn Unit := do
  Coro.loop (fun c => c.sock.awaited.length + 1) (connectionRound server) ()
  onSocket Socket.shutdown

end HttpServer

end CppEvent
