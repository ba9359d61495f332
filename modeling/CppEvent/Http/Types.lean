import CppEvent.Library.AssocMap
import CppEvent.Http.Util
import CppEvent.Net.Socket

/-!
# Methods, versions, statuses and header maps

`cppevent_http/types.cpp`.
-/

namespace CppEvent

inductive HttpMethod where
  | GET | POST | HEAD | OPTIONS
  deriving DecidableEq, Repr

inductive HttpVersion where
  | HTTP_1_0 | HTTP_1_1
  deriving DecidableEq, Repr

inductive HttpStatus where
  | CONTINUE | SWITCHING_PROTOCOLS
  | OK | CREATED | ACCEPTED | NON_AUTHORITATIVE_INFORMATION | NO_CONTENT | RESET_CONTENT
  | PARTIAL_CONTENT
  | MULTIPLE_CHOICES | MOVED_PERMANENTLY | FOUND | SEE_OTHER | NOT_MODIFIED | USE_PROXY
  | TEMPORARY_REDIRECT
  | BAD_REQUEST | UNAUTHORIZED | PAYMENT_REQUIRED | FORBIDDEN | NOT_FOUND | METHOD_NOT_ALLOWED
  | NOT_ACCEPTABLE | PROXY_AUTHENTICATION_REQUIRED | REQUEST_TIMEOUT | CONFLICT | GONE
  | LENGTH_REQUIRED | PRECONDITION_FAILED | REQUEST_ENTITY_TOO_LARGE | REQUEST_URI_TOO_LARGE
  | UNSUPPORTED_MEDIA_TYPE | REQUESTED_RANGE_NOT_SATISFIABLE | EXPECTATION_FAILED
  | INTERNAL_SERVER_ERROR | NOT_IMPLEMENTED | BAD_GATEWAY | SERVICE_UNAVAILABLE | GATEWAY_TIMEOUT
  | HTTP_VERSION_NOT_SUPPORTED
  | INSUFFICIENT_STORAGE
  deriving DecidableEq, Repr

def getStatusReasonPhrase : HttpStatus → Except Exn Bytes
  | .CONTINUE => .ok (ascii "100 Continue")
  | .SWITCHING_PROTOCOLS => .ok (ascii "101 Switching Protocols")
  | .OK => .ok (ascii "200 OK")
  | .CREATED => .ok (ascii "201 Created")
  | .ACCEPTED => .ok (ascii "202 Accepted")
  | .NON_AUTHORITATIVE_INFORMATION => .ok (ascii "203 Non-Authoritative Information")
  | .NO_CONTENT => .ok (ascii "204 No Content")
  | .RESET_CONTENT => .ok (ascii "205 Reset Content")
  | .PARTIAL_CONTENT => .ok (ascii "206 Partial Content")
  | .MULTIPLE_CHOICES => .ok (ascii "300 Multiple Choices")
  | .MOVED_PERMANENTLY => .ok (ascii "301 Moved Permanently")
  | .FOUND => .ok (ascii "302 Found")
  | .SEE_OTHER => .ok (ascii "303 See Other")
  | .NOT_MODIFIED => .ok (ascii "304 Not Modified")
  | .USE_PROXY => .ok (ascii "305 Use Proxy")
  | .TEMPORARY_REDIRECT => .ok (ascii "307 Temporary Redirect")
  | .BAD_REQUEST => .ok (ascii "400 Bad Request")
  | .UNAUTHORIZED => .ok (ascii "401 Unauthorized")
  | .PAYMENT_REQUIRED => .ok (ascii "402 Payment Required")
  | .FORBIDDEN => .ok (ascii "403 Forbidden")
  | .NOT_FOUND => .ok (ascii "404 Not Found")
  | .METHOD_NOT_ALLOWED => .ok (ascii "405 Method Not Allowed")
  | .NOT_ACCEPTABLE => .ok (ascii "406 Not Acceptable")
  | .PROXY_AUTHENTICATION_REQUIRED => .ok (ascii "407 Proxy Authentication Required")
  | .REQUEST_TIMEOUT => .ok (ascii "408 Request Time-out")
  | .CONFLICT => .ok (ascii "409 Conflict")
  | .GONE => .ok (ascii "410 Gone")
  | .LENGTH_REQUIRED => .ok (ascii "411 Length Required")
  | .PRECONDITION_FAILED => .ok (ascii "412 Precondition Failed")
  | .REQUEST_ENTITY_TOO_LARGE => .ok (ascii "413 Request Entity Too Large")
  | .REQUEST_URI_TOO_LARGE => .ok (ascii "414 Request-URI Too Large")
  | .UNSUPPORTED_MEDIA_TYPE => .ok (ascii "415 Unsupported Media Type")
  | .REQUESTED_RANGE_NOT_SATISFIABLE => .ok (ascii "416 Requested range not satisfiable")
  | .EXPECTATION_FAILED => .ok (ascii "417 Expectation Failed")
  | .INTERNAL_SERVER_ERROR => .ok (ascii "500 Internal Server Error")
  | .NOT_IMPLEMENTED => .ok (ascii "501 Not Implemented")
  | .BAD_GATEWAY => .ok (ascii "502 Bad Gateway")
  | .SERVICE_UNAVAILABLE => .ok (ascii "503 Service Unavailable")
  | .GATEWAY_TIMEOUT => .ok (ascii "504 Gateway Time-out")
  | .HTTP_VERSION_NOT_SUPPORTED => .ok (ascii "505 HTTP Version not supported")
  | .INSUFFICIENT_STORAGE =>
      .error (.runtimeError "get_status_reason_phrase: unknown status code")

/-- `case_insensitive_hash` over any `std::hash<char>`. -/
def caseInsensitiveHash (hasher : Byte → UInt64) (key : Bytes) : UInt64 :=
  key.foldl (fun seed c =>
    seed ^^^ (hasher (toLower c) + 0x9e3779b9 + (seed <<< (6 : UInt64)) + (seed >>> (2 : UInt64)))) 0

def caseInsensitiveEquality (a b : Bytes) : Bool :=
  a.length == b.length && (a.zip b).all fun p => toLower p.1 == toLower p.2

/-- `header_map`: its entries. -/
abbrev HeaderMap := List (Bytes × Bytes)

namespace HeaderMap

def find (m : HeaderMap) (name : Bytes) : Option Bytes :=
  AssocMap.find caseInsensitiveEquality m name

/-- `m[name] = value`. -/
def assign (m : HeaderMap) (name value : Bytes) : HeaderMap :=
  AssocMap.assign caseInsensitiveEquality m name value

end HeaderMap

theorem caseInsensitiveEquality_iff (a b : Bytes) :
    caseInsensitiveEquality a b ↔ a.map toLower = b.map toLower := by
  induction a generalizing b with
  | nil => cases b <;> simp [caseInsensitiveEquality]
  | cons x a ih =>
    cases b with
    | nil => simp [caseInsensitiveEquality]
    | cons y b =>
      have h := ih b
      simp only [caseInsensitiveEquality, Bool.and_eq_true, beq_iff_eq] at h
      simp only [caseInsensitiveEquality, List.length_cons, List.zip_cons_cons, List.all_cons,
        Bool.and_eq_true, beq_iff_eq, List.map_cons, List.cons.injEq, ← h,
        Nat.add_right_cancel_iff]
      exact and_left_comm

theorem isEquality_caseInsensitive : AssocMap.IsEquality caseInsensitiveEquality where
  refl a := by rw [caseInsensitiveEquality_iff]
  symm a b h := by rw [caseInsensitiveEquality_iff] at h ⊢; exact h.symm
  trans a b c h h' := by rw [caseInsensitiveEquality_iff] at h h' ⊢; exact h.trans h'

theorem caseInsensitiveHash_congr (hasher : Byte → UInt64) {a b : Bytes}
    (h : caseInsensitiveEquality a b) :
    caseInsensitiveHash hasher a = caseInsensitiveHash hasher b := by
  -- the hash sees the letters after lowering only
  have hlower (key : Bytes) : caseInsensitiveHash hasher key =
      (key.map toLower).foldl (fun (seed : UInt64) (c : Byte) =>
        seed ^^^ (hasher c + 0x9e3779b9 + (seed <<< (6 : UInt64)) + (seed >>> (2 : UInt64)))) 0 := by
    rw [caseInsensitiveHash, List.foldl_map]
  rw [hlower, hlower, (caseInsensitiveEquality_iff a b).mp h]

end CppEvent
