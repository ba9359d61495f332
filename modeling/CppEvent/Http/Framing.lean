import CppEvent.Http.Exchange

/-!
# Who decides where a body ends

`http_output::write_headers` writes in chunks if the transfer-encoding says so; `on_connection` asks
for the content-length first. Given the same headers the two agree on a chunked body exactly if there
is not a content-length besides (`framing_agrees_iff`).
-/

namespace CppEvent

open Coroutine

def HttpOutput.setHeaders (headers : List (Bytes × Bytes)) (res : HttpOutput) : HttpOutput :=
  headers.foldl (fun res h => res.setHeader h.1 h.2) res

def HttpRequest.storeHeaders (headers : List (Bytes × Bytes)) (req : HttpRequest) : HttpRequest :=
  headers.foldl (fun req h => { req with headers := req.headers.assign h.1 h.2 }) req

namespace HttpOutput

/-- However `write_headers` ends, it has decided on the encoding. -/
theorem chunkedEncoding_writeHeaders {o : OutputSocket} (h : o.res.headersWritten = false) :
    (writeHeaders.run o).2.res.chunkedEncoding = encodesChunked o.res.headers := by
  have hraw (src : Bytes) :
      Coro.Keeps (fun o : OutputSocket => o.res.chunkedEncoding) (rawWrite src) := fun _ => rfl
  rw [writeHeaders, Coro.run_get_bind, if_neg (by simp [h]), Coro.run_modify_bind]
  -- nothing behind the choice of the encoding changes it
  refine (?_ : Coro.Keeps (fun o : OutputSocket => o.res.chunkedEncoding) _)
    { o with res := { o.res with chunkedEncoding := encodesChunked o.res.headers } }
  refine .bind (hraw _) fun _ => ?_
  cases getStatusReasonPhrase o.res.status with
  | error e => exact .fail e
  | ok phrase =>
    exact .bind (hraw _) fun _ => .bind (hraw _) fun _ =>
      .bind (writeHeaderLines_keeps hraw _) fun _ => .bind (hraw _) fun _ => .modify fun _ => rfl

theorem headers_setHeaders {headers : List (Bytes × Bytes)}
    (hne : ∀ h ∈ headers, h.1 ≠ [] ∧ h.2 ≠ []) (res : HttpOutput) :
    (setHeaders headers res).headers =
        headers.foldl (fun m h => m.assign h.1 h.2) res.headers ∧
      (setHeaders headers res).headersWritten = res.headersWritten := by
  induction headers generalizing res with
  | nil => exact ⟨rfl, rfl⟩
  | cons h headers ih =>
    have hset : res.setHeader h.1 h.2 = { res with headers := res.headers.assign h.1 h.2 } := by
      have := hne h List.mem_cons_self
      rw [setHeader, if_neg (by simp [this])]
    obtain ⟨hheaders, hwritten⟩ :=
      ih (fun h' hh => hne h' (List.mem_cons_of_mem h hh)) (res.setHeader h.1 h.2)
    rw [setHeaders, List.foldl_cons, ← setHeaders, hheaders, hwritten, hset]
    exact ⟨rfl, rfl⟩

end HttpOutput

theorem HttpRequest.headers_storeHeaders (headers : List (Bytes × Bytes)) (req : HttpRequest) :
    (storeHeaders headers req).headers =
      headers.foldl (fun m h => m.assign h.1 h.2) req.headers := by
  induction headers generalizing req with
  | nil => rfl
  | cons h headers ih =>
    rw [storeHeaders, List.foldl_cons, ← storeHeaders, ih]
    rfl

/-- Given the same headers, without duplicates, in whatever order the reader stores them. -/
theorem find_foldl_assign_perm {headers headers' : List (Bytes × Bytes)}
    (hperm : headers'.Perm headers)
    (hnodup : headers.Pairwise fun h h' => caseInsensitiveEquality h.1 h'.1 = false)
    {name value : Bytes} :
    HeaderMap.find (headers'.foldl (fun m h => m.assign h.1 h.2) []) name = some value ↔
      ∃ h ∈ headers, caseInsensitiveEquality h.1 name ∧ h.2 = value := by
  have hnodup' : headers'.Pairwise fun h h' => caseInsensitiveEquality h.1 h'.1 = false := by
    refine (hperm.pairwise_iff fun {h h'} hd => ?_).mpr hnodup
    rw [Bool.eq_false_iff] at hd ⊢
    exact fun hs => hd (isEquality_caseInsensitive.symm _ _ hs)
  refine (AssocMap.find_foldl_assign_eq_some_iff isEquality_caseInsensitive hnodup').trans ?_
  exact exists_congr fun h => and_congr_left fun _ => hperm.mem_iff

namespace HttpOutput

theorem encodesChunked_iff (m : HeaderMap) : encodesChunked m = true ↔
    ∃ value, m.find transferEncoding = some value ∧ (findCaseInsensitive value chunked).isSome := by
  rw [encodesChunked]
  cases m.find transferEncoding <;> simp

end HttpOutput

namespace HttpRequest

theorem framing_of_contentLength {req : HttpRequest} {value : Bytes} (hne : value ≠ [])
    (h : req.getHeader contentLength = some value) :
    req.framing ≠ some { incoming := 0, ended := false } := by
  rw [framing, h]
  simp only [Option.getD_some, ne_eq, hne, not_false_eq_true, if_true]
  split <;> simp

theorem framing_of_transferEncoding {req : HttpRequest} {value : Bytes}
    (hnone : req.getHeader contentLength = none) (h : req.getHeader transferEncoding = some value)
    (hvalue : (findCaseInsensitive value chunked).isSome) :
    req.framing = some { incoming := 0, ended := false } := by
  rw [framing, hnone, h]
  simp [hvalue]

end HttpRequest

/-- Headers without duplicates, set by a writer in one order and stored by a reader in another: if
the writer turns to chunks the reader does, except where there are both a chunked transfer-encoding
and a content-length. -/
theorem framing_agrees_iff (headers headers' : List (Bytes × Bytes))
    (hperm : headers'.Perm headers) (hne : ∀ h ∈ headers, h.1 ≠ [] ∧ h.2 ≠ [])
    (hnodup : headers.Pairwise fun h h' => caseInsensitiveEquality h.1 h'.1 = false)
    (traversal : HeaderMap → List (Bytes × Bytes)) (sock : Socket) (req : HttpRequest)
    (hreq : req.headers = []) :
    ((HttpOutput.writeHeaders.run
        ⟨HttpOutput.setHeaders headers { traversal := traversal }, sock⟩).2.res.chunkedEncoding →
      (HttpRequest.storeHeaders headers' req).framing = some { incoming := 0, ended := false }) ↔
      ¬ ((∃ h ∈ headers, caseInsensitiveEquality h.1 transferEncoding ∧
          (findCaseInsensitive h.2 chunked).isSome) ∧
        ∃ h ∈ headers, caseInsensitiveEquality h.1 contentLength) := by
  obtain ⟨hheaders, hwritten⟩ :=
    HttpOutput.headers_setHeaders hne ({ traversal := traversal } : HttpOutput)
  have hget (name : Bytes) : (HttpRequest.storeHeaders headers' req).getHeader name =
      HeaderMap.find (headers'.foldl (fun m h => m.assign h.1 h.2) []) name := by
    rw [HttpRequest.getHeader, HttpRequest.headers_storeHeaders, hreq]
  rw [HttpOutput.chunkedEncoding_writeHeaders hwritten, hheaders, HttpOutput.encodesChunked_iff]
  simp only [find_foldl_assign_perm (List.Perm.refl headers) hnodup]
  constructor
  · rintro himp ⟨⟨t, ht, htname, hchunked⟩, l, hl, hlname⟩
    refine HttpRequest.framing_of_contentLength (hne l hl).2 ?_
      (himp ⟨t.2, ⟨t, ht, htname, rfl⟩, hchunked⟩)
    rw [hget]
    exact (find_foldl_assign_perm hperm hnodup).mpr ⟨l, hl, hlname, rfl⟩
  · rintro hnot ⟨value, ⟨t, ht, htname, rfl⟩, hchunked⟩
    have hnone : (HttpRequest.storeHeaders headers' req).getHeader contentLength = none := by
      rw [hget, Option.eq_none_iff_forall_ne_some]
      intro value hvalue
      obtain ⟨l, hl, hlname, _⟩ := (find_foldl_assign_perm hperm hnodup).mp hvalue
      exact hnot ⟨⟨t, ht, htname, hchunked⟩, l, hl, hlname⟩
    have hsome : (HttpRequest.storeHeaders headers' req).getHeader transferEncoding = some t.2 := by
      rw [hget]
      exact (find_foldl_assign_perm hperm hnodup).mpr ⟨t, ht, htname, rfl⟩
    exact HttpRequest.framing_of_transferEncoding hnone hsome hchunked

theorem framing_agrees_chunked :
    ((HttpOutput.writeHeaders.run ⟨HttpOutput.setHeaders
        [(ascii "Host", ascii "a"), (ascii "Transfer-Encoding", ascii "chunked")]
        { traversal := id }, Socket.new [] fun _ => .stalled⟩).2.res.chunkedEncoding →
      (HttpRequest.storeHeaders
        [(ascii "Transfer-Encoding", ascii "chunked"), (ascii "Host", ascii "a")] {}).framing =
          some { incoming := 0, ended := false }) ↔
      ¬ ((∃ h ∈ [(ascii "Host", ascii "a"), (ascii "Transfer-Encoding", ascii "chunked")],
          caseInsensitiveEquality h.1 transferEncoding ∧
            (findCaseInsensitive h.2 chunked).isSome) ∧
        ∃ h ∈ [(ascii "Host", ascii "a"), (ascii "Transfer-Encoding", ascii "chunked")],
          caseInsensitiveEquality h.1 contentLength) :=
  framing_agrees_iff _ _ (List.Perm.swap _ _ []) (by decide) (by decide) id _ {} rfl

/-- Both headers: the writer emits chunks and the reader takes five bytes. -/
theorem framing_disagrees :
    (HttpOutput.writeHeaders.run ⟨HttpOutput.setHeaders
        [(ascii "Content-Length", ascii "5"), (ascii "Transfer-Encoding", ascii "chunked")]
        { traversal := id }, Socket.new [] fun _ => .stalled⟩).2.res.chunkedEncoding = true ∧
      (HttpRequest.storeHeaders
        [(ascii "Content-Length", ascii "5"), (ascii "Transfer-Encoding", ascii "chunked")]
        {}).framing = some { incoming := 5, ended := true } := by
  rw [HttpOutput.chunkedEncoding_writeHeaders (by decide)]
  exact ⟨by decide, by decide⟩

end CppEvent
