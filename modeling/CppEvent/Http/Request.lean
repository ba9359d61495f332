import CppEvent.Http.Types

/-!
# `http_request`

The request line and header parsers of `http_request.cpp`.
-/

namespace CppEvent

/-- `http_request`; views into `m_uri` are their text. -/
structure HttpRequest where
  method : HttpMethod := .GET
  version : HttpVersion := .HTTP_1_0
  uri : Bytes := []
  path : Bytes := []
  pathParams : List (Bytes × Bytes) := []
  query : Bytes := []
  queryParams : List (Bytes × Bytes) := []
  headers : HeaderMap := []
  deriving DecidableEq, Repr

def methodMap : List (Bytes × HttpMethod) :=
  [(ascii "GET", .GET), (ascii "POST", .POST), (ascii "HEAD", .HEAD), (ascii "OPTIONS", .OPTIONS)]

def versionMap : List (Bytes × HttpVersion) :=
  [(ascii "HTTP/1.0", .HTTP_1_0), (ascii "HTTP/1.1", .HTTP_1_1)]

namespace HttpRequest

def processUri (req : HttpRequest) (uri : Bytes) : HttpRequest :=
  let req := { req with uri := uri, path := uri.takeWhile (· != 63) }
  match uri.dropWhile (· != 63) with
  | [] => req
  | _ :: query => { req with query := query, queryParams := retrieveParams query }

/-- `process_req_line`; a refused line may leave a part of it in the request. -/
def processReqLine (req : HttpRequest) (line : Bytes) : Bool × HttpRequest :=
  match splitString line space with
  | [m, uri, v] =>
      match AssocMap.find (· == ·) methodMap m with
      | none => (false, req)
      | some method =>
          let req := processUri { req with method := method } uri
          match AssocMap.find (· == ·) versionMap v with
          | none => (false, req)
          | some version => (true, { req with version := version })
  | _ => (false, req)

def processHeaderLine (req : HttpRequest) (line : Bytes) : Bool × HttpRequest :=
  match line.dropWhile (· != 58) with
  | [] => (false, req)
  | _ :: value =>
      let key := trimString (line.takeWhile (· != 58))
      let value := trimString value
      if key = [] ∨ value = [] then (false, req)
      else (true, { req with headers := req.headers.assign key value })

def setPathParams (req : HttpRequest) (params : List (Bytes × Bytes)) : HttpRequest :=
  { req with pathParams := params }

def getPathParam (req : HttpRequest) (key : Bytes) : Option Bytes :=
  AssocMap.find (· == ·) req.pathParams key

def getMultiQueryParam (req : HttpRequest) (key : Bytes) : List Bytes :=
  (req.queryParams.filter (·.1 == key)).map Prod.snd

def getQueryParam (req : HttpRequest) (key : Bytes) : Option Bytes :=
  (req.getMultiQueryParam key).head?

def getHeader (req : HttpRequest) (key : Bytes) : Option Bytes := req.headers.find key

end HttpRequest

end CppEvent
