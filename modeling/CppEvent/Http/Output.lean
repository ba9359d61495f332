import CppEvent.Http.Types

/-!
# `http_output`

The response writer of `http_output.cpp`, a coroutine on the output and the socket it writes to.
-/

namespace CppEvent

open Coroutine

/-- `http_output` without its socket. `traversal` is the order in which the header map iterates. -/
structure HttpOutput where
  status : HttpStatus := .OK
  headers : HeaderMap := []
  headersWritten : Bool := false
  chunkedEncoding : Bool := false
  traversal : HeaderMap → List (Bytes × Bytes)

/-- An output and the socket that `m_sock` refers to. -/
structure OutputSocket where
  res : HttpOutput
  sock : Socket

def transferEncoding : Bytes := ascii "transfer-encoding"
def contentLength : Bytes := ascii "content-length"
def chunked : Bytes := ascii "chunked"
def crlf : Bytes := [cr, lf]

namespace HttpOutput

variable {α : Type}

def onSocket (t : Coro Socket Exn α) : Coro OutputSocket Exn α :=
  Coro.focus OutputSocket.sock (fun sock o => { o with sock := sock }) t

def setStatus (res : HttpOutput) (status : HttpStatus) : HttpOutput := { res with status := status }

def setHeader (res : HttpOutput) (name value : Bytes) : HttpOutput :=
  if name = [] ∨ value = [] then res else { res with headers := res.headers.assign name value }

/-- `set_content_length`; the digits of a `long` always fit its buffer. -/
def setContentLength (res : HttpOutput) (len : Int) : Except Exn HttpOutput :=
  if len < 0 then .error (.runtimeError "http_output set_content_len: value less than 0")
  else .ok (res.setHeader contentLength (toChars 10 len.toNat))

def rawWrite (src : Bytes) : Coro OutputSocket Exn Unit := onSocket (Socket.write src)

/-- The rule by which `write_headers` turns chunked encoding on. -/
def encodesChunked (headers : HeaderMap) : Bool :=
  match headers.find transferEncoding with
  | some value => (findCaseInsensitive value chunked).isSome
  | none => false

def writeHeaderLines : List (Bytes × Bytes) → Coro OutputSocket Exn Unit
  | [] => pure ()
  | (name, value) :: rest => do
      rawWrite name
      rawWrite (ascii ": ")
      rawWrite value
      rawWrite crlf
      writeHeaderLines rest

def writeHeaders : Coro OutputSocket Exn Unit := do
  let o ← Coro.get
  if o.res.headersWritten then pure ()
  else do
    Coro.modify fun o =>
      { o with res := { o.res with chunkedEncoding := encodesChunked o.res.headers } }
    rawWrite (ascii "HTTP/1.1 ")
    match getStatusReasonPhrase o.res.status with
    | .error e => Coro.fail e
    | .ok phrase => do
        rawWrite phrase
        rawWrite crlf
        writeHeaderLines (o.res.traversal o.res.headers)
        rawWrite crlf
        Coro.modify fun o => { o with res := { o.res with headersWritten := true } }

/-- `write`; the digits of a `long` always fit its buffer. -/
def write (src : Bytes) : Coro OutputSocket Exn Unit :=
  if src = [] then Coro.fail (.runtimeError "http_output write: size less than or equal 0")
  else do
    writeHeaders
    let o ← Coro.get
    if o.res.chunkedEncoding then do
      rawWrite (toChars 16 src.length)
      rawWrite crlf
      rawWrite src
      rawWrite crlf
    else rawWrite src

/-- `end`. -/
def finish : Coro OutputSocket Exn Unit := do
  writeHeaders
  let o ← Coro.get
  if o.res.chunkedEncoding then rawWrite (ascii "0\r\n\r\n") else pure ()
  onSocket Socket.flush

end HttpOutput

end CppEvent
