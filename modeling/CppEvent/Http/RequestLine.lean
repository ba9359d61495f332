import CppEvent.Http.QueryString
import CppEvent.Http.Request

/-!
# The request line

A request line written from its parts is taken apart into them again, down to the values of every key of
its query (`request_line_roundTrip`).
-/

namespace CppEvent

abbrev questionMark : Byte := 63

/-- A pair of a query, as it may stand between ampersands. -/
structure QueryPair where
  key : Bytes
  value : Bytes
  key_ne_nil : key ≠ []
  value_ne_nil : value ≠ []
  space_not_mem : space ∉ key ∧ space ∉ value
  ampersand_not_mem : ampersand ∉ key ∧ ampersand ∉ value
  equalsSign_not_mem : equalsSign ∉ key ∧ equalsSign ∉ value

namespace QueryPair

def text (p : QueryPair) : Bytes := p.key ++ equalsSign :: p.value

def join (ps : List QueryPair) : Bytes := [ampersand].intercalate (ps.map text)

theorem not_mem_text {c : Byte} (hc : c ≠ equalsSign) {p : QueryPair}
    (h : c ∉ p.key ∧ c ∉ p.value) : c ∉ p.text := by
  simp [text, h, hc]

theorem pair_text (p : QueryPair) : QueryString.pair p.text = some (p.key, p.value) := by
  have hall : ∀ c ∈ p.key, (c != equalsSign) = true := fun c hc => by
    rw [bne_iff_ne]
    rintro rfl
    exact p.equalsSign_not_mem.1 hc
  rw [QueryString.pair, text, List.takeWhile_append_of_pos hall, List.dropWhile_append_of_pos hall]
  simp [p.key_ne_nil, p.value_ne_nil]

theorem plain_text (known : Prop) (p : QueryPair) : QueryString.Plain known p.text := by
  rw [QueryString.Plain, pair_text]
  exact p.equalsSign_not_mem.2

theorem retrieveParams_join (ps : List QueryPair) :
    retrieveParams (join ps) = ps.map fun p => (p.key, p.value) := by
  cases ps with
  | nil => rfl
  | cons p ps =>
    have hpieces : QueryString.pieces (join (p :: ps)) = (p :: ps).map text := by
      refine List.splitOn_intercalate ampersand (fun t ht => ?_) (by simp)
      obtain ⟨q, -, rfl⟩ := List.mem_map.mp ht
      exact not_mem_text (by decide) q.ampersand_not_mem
    have hpair : QueryString.pair ∘ text = some ∘ fun q => (q.key, q.value) := funext pair_text
    rw [retrieveParams, QueryString.retrieveFrom_eq, hpieces, QueryString.retrievePieces_of_clear]
    · rw [List.filterMap_map, hpair, List.filterMap_eq_map]
    · intro before piece after hps
      have hmem : piece ∈ (p :: ps).map text := by simp [hps]
      obtain ⟨q, -, rfl⟩ := List.mem_map.mp hmem
      exact plain_text _ q

theorem space_not_mem_join (ps : List QueryPair) : space ∉ join ps := by
  have htext (p : QueryPair) : space ∉ p.text := not_mem_text (by decide) p.space_not_mem
  induction ps with
  | nil => exact List.not_mem_nil
  | cons p ps ih =>
    cases ps with
    | nil => simpa [join] using htext p
    | cons q ps =>
      rw [join, List.map_cons, List.map_cons, List.intercalate_cons_cons, ← List.map_cons, ← join]
      simp only [List.mem_append, List.mem_singleton, not_or]
      exact ⟨⟨htext p, by decide⟩, ih⟩

end QueryPair

namespace HttpRequest

/-- A line of three words, of which the tables know the first and the last. -/
theorem processReqLine_words {method version uri : Bytes} {m : HttpMethod} {v : HttpVersion}
    (hmethod : (method, m) ∈ methodMap) (hversion : (version, v) ∈ versionMap) (hne : uri ≠ [])
    (huri : space ∉ uri) (req : HttpRequest) :
    req.processReqLine (method ++ space :: (uri ++ space :: version)) =
      (true, { processUri { req with method := m } uri with version := v }) := by
  -- the words of the tables have no space, and each has an entry of its own
  have hm : method ≠ [] ∧ space ∉ method ∧ AssocMap.find (· == ·) methodMap method = some m := by
    have hall : ∀ p ∈ methodMap, p.1 ≠ [] ∧ space ∉ p.1 ∧
        AssocMap.find (· == ·) methodMap p.1 = some p.2 := by decide
    exact hall _ hmethod
  have hv : version ≠ [] ∧ space ∉ version ∧
      AssocMap.find (· == ·) versionMap version = some v := by
    have hall : ∀ p ∈ versionMap, p.1 ≠ [] ∧ space ∉ p.1 ∧
        AssocMap.find (· == ·) versionMap p.1 = some p.2 := by decide
    exact hall _ hversion
  have hsplit : splitString (method ++ space :: (uri ++ space :: version)) space =
      [method, uri, version] := by
    rw [splitString_append space hm.1 hm.2.1, splitString_append space hne huri,
      splitString_of_not_mem space hv.1 hv.2.1]
  rw [processReqLine, hsplit]
  simp only [hm.2.2, hv.2.2]

/-- What stands before the first question mark is the path, the rest the query. -/
theorem processUri_mark {path : Bytes} (h : questionMark ∉ path) (query : Bytes)
    (req : HttpRequest) : req.processUri (path ++ questionMark :: query) = { req with
      uri := path ++ questionMark :: query
      path := path
      query := query
      queryParams := retrieveParams query } := by
  have hall : ∀ c ∈ path, (c != 63) = true := fun c hc => by
    rw [bne_iff_ne]
    rintro rfl
    exact h hc
  rw [processUri, List.takeWhile_append_of_pos hall, List.dropWhile_append_of_pos hall]
  simp

theorem getMultiQueryParam_pairs {req : HttpRequest} {ps : List QueryPair}
    (h : req.queryParams = ps.map fun p => (p.key, p.value)) (key : Bytes) :
    req.getMultiQueryParam key = (ps.filter (·.key == key)).map QueryPair.value := by
  rw [getMultiQueryParam, h, List.filter_map, List.map_map]
  rfl

theorem isSome_getQueryParam_iff {req : HttpRequest} {ps : List QueryPair}
    (h : req.queryParams = ps.map fun p => (p.key, p.value)) (key : Bytes) :
    (req.getQueryParam key).isSome ↔ ∃ p ∈ ps, p.key = key := by
  rw [getQueryParam, getMultiQueryParam_pairs h, List.isSome_head?]
  simp [List.filter_eq_nil_iff]

end HttpRequest

/-- Whatever a request held before, a line of a method, a path, the pairs of a query and a version is
accepted, and the request has these. -/
theorem request_line_roundTrip {method version path : Bytes} {m : HttpMethod} {v : HttpVersion}
    (hmethod : (method, m) ∈ methodMap) (hversion : (version, v) ∈ versionMap) (hspace : space ∉ path)
    (hmark : questionMark ∉ path) (ps : List QueryPair) (req : HttpRequest) :
    ∃ req', req.processReqLine (method ++ space ::
        (path ++ questionMark :: QueryPair.join ps ++ space :: version)) = (true, req') ∧
      req'.method = m ∧ req'.version = v ∧ req'.path = path ∧ req'.query = QueryPair.join ps ∧
      (∀ key, req'.getMultiQueryParam key = (ps.filter (·.key == key)).map QueryPair.value) ∧
      ∀ key, (req'.getQueryParam key).isSome ↔ ∃ p ∈ ps, p.key = key := by
  have huri : space ∉ path ++ questionMark :: QueryPair.join ps := by
    rw [List.mem_append, List.mem_cons, not_or, not_or]
    exact ⟨hspace, by decide, QueryPair.space_not_mem_join ps⟩
  have hparams := QueryPair.retrieveParams_join ps
  refine ⟨_, HttpRequest.processReqLine_words hmethod hversion (by simp) huri req, ?_⟩
  rw [HttpRequest.processUri_mark hmark]
  exact ⟨rfl, rfl, rfl, rfl, HttpRequest.getMultiQueryParam_pairs hparams,
    HttpRequest.isSome_getQueryParam_iff hparams⟩

/-- A key that appears twice. -/
theorem request_line_roundTrip_search : ∃ (ps : List QueryPair) (req : HttpRequest),
    ({} : HttpRequest).processReqLine (ascii "GET /search?a=1&a=2 HTTP/1.1") = (true, req) ∧
      ps.map QueryPair.value = [ascii "1", ascii "2"] ∧
      req.getMultiQueryParam (ascii "a") = ps.map QueryPair.value := by
  let pair (value : Bytes) (h : value ≠ [] ∧ space ∉ value ∧ ampersand ∉ value ∧ equalsSign ∉ value) :
      QueryPair :=
    ⟨ascii "a", value, by decide, h.1, ⟨by decide, h.2.1⟩, ⟨by decide, h.2.2.1⟩,
      ⟨by decide, h.2.2.2⟩⟩
  let ps := [pair (ascii "1") (by decide), pair (ascii "2") (by decide)]
  obtain ⟨req, hrun, -, -, -, -, hvalues, -⟩ := request_line_roundTrip
    (show (ascii "GET", HttpMethod.GET) ∈ methodMap by decide)
    (show (ascii "HTTP/1.1", HttpVersion.HTTP_1_1) ∈ versionMap by decide)
    (show space ∉ ascii "/search" by decide) (by decide) ps {}
  exact ⟨ps, req, hrun, rfl, hvalues (ascii "a")⟩

end CppEvent
