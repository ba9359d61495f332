import CppEvent.Http.Types

/-!
# `http_router`

The router of `http_router.cpp`: a trie over the segments of the registered paths.
-/

namespace CppEvent

/-- `http_router` over a type of endpoints; `nullptr` is `none`. -/
structure HttpRouter (E : Type) where
  getEndpoint : Option E
  postEndpoint : Option E
  routes : List (Bytes × HttpRouter E)
  pathParam : Bytes
  paramRoute : Option (HttpRouter E)

abbrev slash : Byte := 47
abbrev colon : Byte := 58

structure SplitPath where
  first : Bytes
  remaining : Bytes

namespace SplitPath

def isRoot (sp : SplitPath) : Bool := sp.first.isEmpty

def split (path : Bytes) : SplitPath :=
  let path := path.dropWhile (· == slash)
  { first := path.takeWhile (· != slash), remaining := path.dropWhile (· != slash) }

end SplitPath

namespace HttpRouter

variable {E : Type}

/-- `std::make_unique<http_router>()`. -/
def new : HttpRouter E :=
  { getEndpoint := none, postEndpoint := none, routes := [], pathParam := [], paramRoute := none }

def unsupportedMethod : Exn :=
  .runtimeError "http_router get_endpoint_ptr: unsupported http method"

/-- `get_endpoint_var`, read. -/
def getEndpointVar (t : HttpRouter E) : HttpMethod → Except Exn (Option E)
  | .GET => .ok t.getEndpoint
  | .POST => .ok t.postEndpoint
  | _ => .error unsupportedMethod

/-- `get_endpoint_var`, assigned to. -/
def setEndpointVar (t : HttpRouter E) (endpoint : Option E) : HttpMethod → Except Exn (HttpRouter E)
  | .GET => .ok { t with getEndpoint := endpoint }
  | .POST => .ok { t with postEndpoint := endpoint }
  | _ => .error unsupportedMethod

end HttpRouter

theorem SplitPath.length_remaining_lt {path : Bytes} (h : (SplitPath.split path).isRoot = false) :
    (SplitPath.split path).remaining.length < path.length := by
  have h₁ := congrArg List.length (List.takeWhile_append_dropWhile (p := (· != slash))
    (l := path.dropWhile (· == slash)))
  have h₂ := (List.dropWhile_suffix (l := path) (· == slash)).length_le
  have h₃ : 0 < (SplitPath.split path).first.length := by
    rw [List.length_pos_iff]
    simpa [SplitPath.isRoot] using h
  simp only [SplitPath.split, List.length_append] at h₁ h₃ ⊢
  omega

namespace HttpRouter

variable {E : Type}

/-- `set_endpoint`: the router it leaves and how it ends. What was changed on the way down stays
when it throws. -/
def setEndpoint (t : HttpRouter E) (method : HttpMethod) (path : Bytes) (endpoint : Option E) :
    HttpRouter E × Except Exn Unit :=
  let sp := SplitPath.split path
  if h : sp.isRoot then
    match t.getEndpointVar method with
    | .error e => (t, .error e)
    | .ok (some _) => (t, .error (.runtimeError "http_router set_endpoint: duplicate endpoint"))
    | .ok none =>
        match t.setEndpointVar endpoint method with
        | .error e => (t, .error e)
        | .ok t => (t, .ok ())
  else
    have : sp.remaining.length < path.length :=
      SplitPath.length_remaining_lt (Bool.eq_false_iff.mpr h)
    let segment := sp.first
    if segment.head? = some colon ∧ 1 < segment.length then
      let param := segment.tail
      if t.pathParam ≠ [] ∧ t.pathParam ≠ param then
        (t, .error (.runtimeError "http_router set_endpoint: path parameter name clash"))
      else
        let r := setEndpoint (t.paramRoute.getD new) method sp.remaining endpoint
        ({ t with pathParam := param, paramRoute := some r.1 }, r.2)
    else if segment.head? = some colon then
      (t, .error (.runtimeError "http_router set_endpoint: invalid path parameter name"))
    else
      let r := setEndpoint ((AssocMap.find (· == ·) t.routes segment).getD new) method sp.remaining
        endpoint
      ({ t with routes := AssocMap.assign (· == ·) t.routes segment r.1 }, r.2)
termination_by path.length

def get (t : HttpRouter E) (path : Bytes) (endpoint : Option E) : HttpRouter E × Except Exn Unit :=
  t.setEndpoint .GET path endpoint

def post (t : HttpRouter E) (path : Bytes) (endpoint : Option E) : HttpRouter E × Except Exn Unit :=
  t.setEndpoint .POST path endpoint

/-- `match`: the endpoint and the parameters it adds to `params`. -/
def matchPath (t : HttpRouter E) (method : HttpMethod) (path : Bytes)
    (params : List (Bytes × Bytes)) : Except Exn (Option E × List (Bytes × Bytes)) :=
  let sp := SplitPath.split path
  if h : sp.isRoot then (t.getEndpointVar method).map fun e => (e, params)
  else
    have : sp.remaining.length < path.length :=
      SplitPath.length_remaining_lt (Bool.eq_false_iff.mpr h)
    match AssocMap.find (· == ·) t.routes sp.first with
    | some child => matchPath child method sp.remaining params
    | none =>
        if t.pathParam ≠ [] then
          match t.paramRoute with
          | some child =>
              matchPath child method sp.remaining
                (AssocMap.assign (· == ·) params t.pathParam sp.first)
          -- a null pointer in the source; a router that calls have built has none here
          | none => .ok (none, params)
        else .ok (none, params)
termination_by path.length

end HttpRouter

end CppEvent
