import CppEvent.Http.Framing
import CppEvent.Http.Message

/-!
# Responses read back

What `http_output` sends for a response, the readers of this repository take apart again: the status
line, the header map and the data (`response_reads_back`). The header lines go out in the order in
which the map is traversed, and come back into a map that finds the same values.
-/

namespace CppEvent

open Coroutine

theorem not_mem_toChars {c : Byte} (hc : digit 10 c = none) (n : Nat) : c ∉ toChars 10 n := by
  intro h
  have hdigit := (toChars_numeral (by omega) (by omega) n).1.2 c h
  rw [hc] at hdigit
  cases hdigit

def Header.ofLength (n : Nat) : Header where
  name := contentLength
  value := toChars 10 n
  name_ne_nil := by decide
  value_ne_nil := (toChars_numeral (by omega) (by omega) n).1.1
  name_trimmed := ⟨by decide, by decide⟩
  value_trimmed :=
    ⟨fun h => not_mem_toChars (by decide) n (List.mem_of_head? h),
      fun h => not_mem_toChars (by decide) n (List.mem_of_getLast? h)⟩
  colon_not_mem := by decide
  cr_not_mem := ⟨by decide, not_mem_toChars (by decide) n⟩
  lf_not_mem := ⟨by decide, not_mem_toChars (by decide) n⟩

/-! ## Setting headers -/

/-- A call that sets a header. A content-length is set by its own call only. -/
inductive HeaderCall where
  | setHeader (header : Header) (free : caseInsensitiveEquality header.name contentLength = false)
  | setContentLength (len : Int) (fits : -2 ^ 63 ≤ len ∧ len < 2 ^ 63)

namespace HeaderCall

def perform (res : HttpOutput) : HeaderCall → HttpOutput
  | setHeader header _ => res.setHeader header.name header.value
  | setContentLength len _ =>
      match res.setContentLength len with
      | .ok res => res
      | .error _ => res

def length : HeaderCall → Option Nat
  | setHeader _ _ => none
  | setContentLength len _ => if len < 0 then none else some len.toNat

def header : HeaderCall → Option Header
  | setHeader header _ => some header
  | setContentLength len _ => if len < 0 then none else some (.ofLength len.toNat)

def headers (calls : List HeaderCall) : List Header := calls.filterMap header

def lengthSet (calls : List HeaderCall) : Option Nat := (calls.filterMap length).getLast?

/-- The transfer-encoding that was set last asks for chunks. -/
def chunkedSet (calls : List HeaderCall) : Bool :=
  match Header.lookup (headers calls) transferEncoding with
  | some value => (findCaseInsensitive value chunked).isSome
  | none => false

/-- The body that a reader of a response with these headers expects. -/
def frame (calls : List HeaderCall) : HttpBody :=
  if chunkedSet calls then { incoming := 0, ended := false }
  else { incoming := (lengthSet calls).getD 0, ended := true }

theorem setHeader_header (res : HttpOutput) (h : Header) : res.setHeader h.name h.value =
    { res with headers := res.headers.assign h.name h.value } := by
  rw [HttpOutput.setHeader, if_neg]
  rintro (hname | hvalue)
  · exact h.name_ne_nil hname
  · exact h.value_ne_nil hvalue

theorem perform_eq (res : HttpOutput) (call : HeaderCall) : call.perform res = match call.header with
    | some h => { res with headers := res.headers.assign h.name h.value }
    | none => res := by
  cases call with
  | setHeader header free => exact setHeader_header res header
  | setContentLength len fits =>
    rw [perform, HttpOutput.setContentLength, CppEvent.HeaderCall.header]
    by_cases hneg : len < 0
    · rw [if_pos hneg, if_pos hneg]
    · rw [if_neg hneg, if_neg hneg]
      exact setHeader_header res (.ofLength len.toNat)

theorem foldl_perform (calls : List HeaderCall) (res : HttpOutput) :
    calls.foldl perform res = { res with headers := Header.store (headers calls) res.headers } := by
  induction calls generalizing res with
  | nil => rfl
  | cons call calls ih =>
    rw [List.foldl_cons, ih, perform_eq]
    cases hcall : call.header with
    | none =>
      rw [show headers (call :: calls) = headers calls from List.filterMap_cons_none hcall]
    | some h =>
      rw [show headers (call :: calls) = h :: headers calls from List.filterMap_cons_some hcall]
      rfl

/-- The headers called content-length come from the calls that set the length. -/
theorem named_contentLength (calls : List HeaderCall) :
    Header.named (headers calls) contentLength = (calls.filterMap length).map Header.ofLength := by
  induction calls with
  | nil => rfl
  | cons call calls ih =>
    rw [headers, List.filterMap_cons, List.filterMap_cons]
    cases call with
    | setHeader header free =>
      show Header.named (header :: headers calls) contentLength = _
      rw [Header.named, List.filter_cons_of_neg (by rw [free]; exact Bool.false_ne_true)]
      exact ih
    | setContentLength len fits =>
      rw [CppEvent.HeaderCall.header, length]
      by_cases hneg : len < 0
      · rw [if_pos hneg, if_pos hneg]
        exact ih
      · rw [if_neg hneg, if_neg hneg]
        show Header.named (.ofLength len.toNat :: headers calls) contentLength =
          .ofLength len.toNat :: (calls.filterMap length).map Header.ofLength
        rw [← ih, Header.named, List.filter_cons]
        exact if_pos (isEquality_caseInsensitive.refl contentLength)

theorem lookup_contentLength (calls : List HeaderCall) :
    Header.lookup (headers calls) contentLength = (lengthSet calls).map (toChars 10) := by
  rw [Header.lookup, named_contentLength, List.getLast?_map, Option.map_map]
  rfl

theorem lengthSet_lt {calls : List HeaderCall} {n : Nat} (h : lengthSet calls = some n) :
    n < 2 ^ 63 := by
  obtain ⟨call, -, hcall⟩ := List.mem_filterMap.mp (List.mem_of_getLast? h)
  cases call with
  | setHeader header free => cases hcall
  | setContentLength len fits =>
    rw [length] at hcall
    split at hcall
    · cases hcall
    · obtain rfl := Option.some.inj hcall
      omega

end HeaderCall

/-! ## Writing -/

namespace HttpOutput

/-- Data written piece by piece, then `end`. -/
def writeAll : List Bytes → Coro OutputSocket Exn Unit
  | [] => finish
  | src :: rest => do
      write src
      writeAll rest

def respond (status : HttpStatus) (calls : List HeaderCall) (writes : List Bytes) :
    Coro OutputSocket Exn Unit := do
  Coro.modify fun o => { o with res := calls.foldl HeaderCall.perform (o.res.setStatus status) }
  writeAll writes

theorem sendHeaders_sent {res : HttpOutput} (h : res.sendHeaders.1 = .ok ()) :
    res.sendHeaders.2.headersWritten = true := by
  rw [sendHeaders] at h ⊢
  by_cases hwritten : res.headersWritten
  · rw [if_pos hwritten]
    exact hwritten
  · rw [if_neg hwritten] at h ⊢
    simp only at h ⊢
    split at h
    · cases h
    · rfl

/-- The whole text of a response whose headers can go out. -/
theorem writeAll_run {writes : List Bytes} (hwrites : [] ∉ writes) {o : OutputSocket}
    (h : o.sock.output.SendsSucceed) (hsend : o.res.sendHeaders.1 = .ok ()) :
    ∃ s', (writeAll writes).run o = (.returned (), { res := o.res.sendHeaders.2, sock := s' }) ∧
      o.sock.Writes (o.res.headText ++
        (writes.flatMap o.res.sendHeaders.2.dataText ++ o.res.sendHeaders.2.endText)) s' ∧
      s'.output.buffer.unread = [] := by
  induction writes generalizing o with
  | nil =>
    obtain ⟨s', hrun, hw, hu⟩ := finish_run h
    refine ⟨s', ?_, ?_, hu hsend⟩
    · rw [writeAll, hrun, hsend]
      rfl
    · have hpair : o.res.sendHeaders = (.ok (), o.res.sendHeaders.2) := Prod.ext hsend rfl
      rw [finishText, hpair] at hw
      exact hw
  | cons src writes ih =>
    rw [List.mem_cons, not_or] at hwrites
    obtain ⟨s₁, hrun₁, hw₁⟩ := write_run h src
    have hpair : o.res.sendHeaders = (.ok (), o.res.sendHeaders.2) := Prod.ext hsend rfl
    rw [send, if_neg (Ne.symm hwrites.1), hsend] at hrun₁
    rw [sendText, if_neg (Ne.symm hwrites.1), hpair] at hw₁
    -- the headers are out now, and stay as they are
    have hsent := sendHeaders_sent hsend
    have hagain : o.res.sendHeaders.2.sendHeaders = (.ok (), o.res.sendHeaders.2) := by
      rw [sendHeaders, if_pos hsent]
    obtain ⟨s₂, hrun₂, hw₂, hu₂⟩ := ih hwrites.2 (o := { res := o.res.sendHeaders.2, sock := s₁ })
      hw₁.2.2.1 (by rw [hagain])
    refine ⟨s₂, ?_, ?_, hu₂⟩
    · rw [writeAll, Coro.bind_returned _ hrun₁, hrun₂, hagain]
    · have htext : o.res.sendHeaders.2.headText = [] := by rw [headText, if_pos hsent]
      have htrans := hw₁.trans hw₂
      rw [htext, hagain, List.nil_append, List.append_assoc] at htrans
      rw [List.flatMap_cons, List.append_assoc]
      exact htrans

end HttpOutput

/-! ## The text as readers see it -/

/-- The chunk that `write` sends for a piece of data. -/
def Chunk.ofData (data : Bytes) (hne : data ≠ []) (hlt : data.length < 2 ^ 63) : Chunk where
  line :=
    { digits := toChars 16 data.length
      extension := []
      numeral := (toChars_numeral (by omega) (by omega) _).1
      stops := Numeral.stops_nil
      no_lf := List.not_mem_nil
      lt := by rwa [(toChars_numeral (by omega) (by omega) _).2] }
  data := data
  nonempty := hne
  size_eq := (toChars_numeral (by omega) (by omega) _).2

theorem exists_chunks {writes : List Bytes} (h : ∀ w ∈ writes, w ≠ [] ∧ w.length < 2 ^ 63) :
    ∃ chunks : List Chunk, chunks.map Chunk.data = writes ∧
      chunks.flatMap Chunk.wire =
        writes.flatMap fun w => toChars 16 w.length ++ (crlf ++ (w ++ crlf)) := by
  induction writes with
  | nil => exact ⟨[], rfl, rfl⟩
  | cons w writes ih =>
    obtain ⟨⟨hne, hlt⟩, hwrites⟩ := List.forall_mem_cons.mp h
    obtain ⟨chunks, hdata, hwire⟩ := ih hwrites
    refine ⟨.ofData w hne hlt :: chunks, by rw [List.map_cons, hdata]; rfl, ?_⟩
    rw [List.flatMap_cons, List.flatMap_cons, hwire]
    simp [Chunk.wire, Chunk.ofData, SizeLine.text, crlf]

theorem LastChunk.isNumeral_zero : Numeral.IsNumeral (digit 16) (ascii "0") :=
  ⟨by decide, List.all_eq_true.1 (by decide)⟩

theorem LastChunk.value_zero_lt : Numeral.value (digit 16) 16 (ascii "0") < 2 ^ 63 := by decide

def LastChunk.zero : LastChunk where
  line :=
    { digits := ascii "0"
      extension := []
      numeral := LastChunk.isNumeral_zero
      stops := Numeral.stops_nil
      no_lf := List.not_mem_nil
      lt := LastChunk.value_zero_lt }
  size_eq := by decide

/-- The entries of a header map that headers were stored in can stand on lines of their own. -/
theorem exists_headers (headers : List Header) {m : HeaderMap}
    (h : m.Perm (Header.store headers [])) :
    ∃ hs : List Header, hs.map (fun h => (h.name, h.value)) = m := by
  have hentries : ∀ p ∈ Header.store headers [], ∃ h : Header, (h.name, h.value) = p := by
    clear h
    induction headers using List.reverseRecOn with
    | nil => exact fun p hp => by cases hp
    | append_singleton headers h ih =>
      intro p hp
      rw [Header.store, List.foldl_append] at hp
      obtain ⟨hname, hvalue⟩ := AssocMap.mem_assign hp
      -- a name and a value of headers make up a header
      obtain ⟨g, hg⟩ : ∃ g : Header, g.name = p.1 := by
        rcases hname with hname | ⟨q, hq, hname⟩
        · exact ⟨h, hname.symm⟩
        · obtain ⟨g, rfl⟩ := ih q hq
          exact ⟨g, hname⟩
      obtain ⟨k, hk⟩ : ∃ k : Header, k.value = p.2 := by
        rcases hvalue with hvalue | ⟨q, hq, hvalue⟩
        · exact ⟨h, hvalue.symm⟩
        · obtain ⟨k, rfl⟩ := ih q hq
          exact ⟨k, hvalue⟩
      refine ⟨⟨g.name, k.value, g.name_ne_nil, k.value_ne_nil, g.name_trimmed, k.value_trimmed,
        g.colon_not_mem, ⟨g.cr_not_mem.1, k.cr_not_mem.2⟩, ⟨g.lf_not_mem.1, k.lf_not_mem.2⟩⟩, ?_⟩
      exact Prod.ext hg hk
  replace hentries : ∀ p ∈ m, ∃ h : Header, (h.name, h.value) = p :=
    fun p hp => hentries p (h.mem_iff.mp hp)
  clear h
  induction m with
  | nil => exact ⟨[], rfl⟩
  | cons p m ih =>
    obtain ⟨⟨g, hg⟩, hm⟩ := List.forall_mem_cons.mp hentries
    obtain ⟨hs, hmap⟩ := ih hm
    exact ⟨g :: hs, by rw [List.map_cons, hg, hmap]⟩

theorem find_perm {headers hs : List Header}
    (h : (hs.map fun h => (h.name, h.value)).Perm (Header.store headers [])) (name : Bytes) :
    HeaderMap.find (Header.store hs []) name = Header.lookup headers name := by
  have hpairs (hs : List Header) : Header.store hs [] =
      (hs.map fun h => (h.name, h.value)).foldl (fun (m : HeaderMap) p => m.assign p.1 p.2) [] := by
    rw [Header.store, List.foldl_map]
  have hdistinct : AssocMap.Distinct caseInsensitiveEquality (Header.store headers []) := by
    rw [hpairs]
    exact AssocMap.distinct_foldl_assign _
  rw [← Header.find_store headers, hpairs hs]
  refine Option.ext fun value => ?_
  rw [find_foldl_assign_perm h hdistinct]
  exact (AssocMap.find_eq_some_iff isEquality_caseInsensitive hdistinct).symm

theorem lf_not_mem_phrase {status : HttpStatus} {phrase : Bytes}
    (h : getStatusReasonPhrase status = .ok phrase) : lf ∉ phrase := by
  cases status <;> first | (cases h; done) | (obtain rfl := Except.ok.inj h; decide)

/-! ## Reading back -/

namespace HeaderCall

/-- A reader frames the body as it was sent, unless there are both a length and chunks. -/
theorem framing_eq {calls : List HeaderCall} {req : HttpRequest}
    (hget : ∀ name, req.getHeader name = Header.lookup (headers calls) name)
    (hboth : chunkedSet calls = true → lengthSet calls = none) :
    req.framing = some (frame calls) := by
  rw [HttpRequest.framing, hget, hget, lookup_contentLength, frame]
  cases hlength : lengthSet calls with
  | none =>
    rw [chunkedSet]
    cases hlookup : Header.lookup (headers calls) transferEncoding with
    | none => rfl
    | some value =>
      simp only [Option.map_none, Option.getD_none, Option.getD_some, ne_eq, not_true_eq_false,
        if_false]
      split <;> rfl
  | some n =>
    have hchunked : chunkedSet calls = false := by
      rw [Bool.eq_false_iff]
      intro h
      rw [hboth h] at hlength
      cases hlength
    obtain ⟨hnumeral, hvalue⟩ := @toChars_numeral 10 (by omega) (by omega) n
    have hlt := lengthSet_lt hlength
    have hfrom : fromChars 10 (toChars 10 n) = .ok n [] := by
      have := @fromChars_numeral 10 (toChars 10 n) [] hnumeral (fun c hc => by cases hc)
        (by rwa [hvalue])
      rwa [List.append_nil, hvalue] at this
    have hne : toChars 10 n ≠ [] := hnumeral.1
    simp only [Option.map_some, Option.getD_some, ne_eq, hne, not_false_eq_true, if_true, hfrom,
      hchunked, Bool.false_eq_true, if_false]

theorem exists_body {calls : List HeaderCall} {writes : List Bytes}
    (hwrites : ∀ w ∈ writes, w ≠ [] ∧ w.length < 2 ^ 63)
    (hlength : chunkedSet calls = false → writes.flatten.length = (lengthSet calls).getD 0)
    {res : HttpOutput} (hres : res.chunkedEncoding = chunkedSet calls) :
    ∃ l : Left, l.state = frame calls ∧ l.data = writes.flatten ∧
      l.wire = writes.flatMap res.dataText ++ res.endText := by
  rw [frame, ← hres]
  rw [← hres] at hlength
  cases hchunked : res.chunkedEncoding with
  | true =>
    obtain ⟨chunks, hdata, hwire⟩ := exists_chunks hwrites
    refine ⟨.before ⟨chunks, .zero⟩, rfl, ?_, ?_⟩
    · rw [Left.data, Left.pieces_of_front_nil rfl]
      exact congrArg List.flatten hdata
    · have htext : res.dataText = fun w => toChars 16 w.length ++ (crlf ++ (w ++ crlf)) := by
        funext w
        rw [HttpOutput.dataText, if_pos hchunked]
      rw [Left.wire, ChunkedBody.wire, hwire, htext, HttpOutput.endText, if_pos hchunked]
      simp only [List.append_assoc]
      rfl
  | false =>
    have htext : res.dataText = id := by
      funext w
      rw [HttpOutput.dataText, hchunked]
      rfl
    refine ⟨.counted writes.flatten, ?_, ?_, ?_⟩
    · rw [Left.state, Left.front, hlength hchunked]
      rfl
    · by_cases hnil : (Left.counted writes.flatten).front = []
      · rw [Left.data, Left.pieces_of_front_nil hnil]
        exact hnil.symm
      · rw [Left.data, Left.pieces_of_front_ne_nil hnil]
        exact List.append_nil _
    · rw [htext, HttpOutput.endText, hchunked, List.flatMap_id]
      simp [Left.wire]

end HeaderCall

/-- A read of at least all that is left gets it, and then the body has ended. -/
theorem HttpBody.read_all {l : Left} {b : BodySocket} {rest : Bytes} (h : l.At b rest) {size : Int}
    (hsize : l.data.length ≤ size) :
    ∃ b₁ b₂, (read size).run b = (.returned (l.data, l.data.length), b₁) ∧
      hasIncoming.run b₁ = (.returned false, b₂) ∧ b₂.sock.pending = rest := by
  obtain ⟨l₁, b₁, hrun₁, hmoves₁, hpieces₁⟩ := read_run size h
  have hle : l.data.length ≤ size.toNat := by omega
  have hnil : l₁.pieces = [] := by
    have hflat : l₁.pieces.flatten = [] := by
      rw [hpieces₁, List.flatten_dropFlat]
      exact List.drop_of_length_le hle
    rcases hp : l₁.pieces with _ | ⟨p, ps⟩
    · rfl
    · rw [hp, List.flatten_cons, List.append_eq_nil_iff] at hflat
      have := l₁.nil_not_mem_pieces
      rw [hp, hflat.1] at this
      exact absurd List.mem_cons_self this
  have hat₁ := hmoves₁.at h
  obtain ⟨b₂, hrun₂, hmoves₂⟩ := hasIncoming_run hat₁
  refine ⟨b₁, b₂, ?_, ?_, ?_⟩
  · rw [hrun₁, List.take_of_length_le hle, Nat.min_eq_right hle]
  · rw [hrun₂, hnil]
    rfl
  · have := (hmoves₂.at hat₁).2
    rwa [Left.advance_of_pieces_nil hnil] at this

open HeaderCall in
/-- Whatever headers are set, whatever pieces the data is written in, however the kernel takes it from
the socket's buffer and hands it to the reader: the reader finds the status line, the header values that
were set last and the data, and its end where the response ends. -/
theorem response_reads_back (status : HttpStatus) (phrase : Bytes)
    (hphrase : getStatusReasonPhrase status = .ok phrase) (calls : List HeaderCall)
    (writes : List Bytes) (hwrites : ∀ w ∈ writes, w ≠ [] ∧ w.length < 2 ^ 63)
    (hboth : chunkedSet calls = true → lengthSet calls = none)
    (hlength : chunkedSet calls = false → writes.flatten.length = (lengthSet calls).getD 0)
    (traversal : HeaderMap → List (Bytes × Bytes)) (htraversal : ∀ m, (traversal m).Perm m)
    (recvs : List RecvCompletion) (sends : Nat → SendCompletion)
    (hsends : ∀ i, ∃ extra, sends i = .accepted extra) :
    ∃ o, (HttpOutput.respond status calls writes).run
        ⟨{ traversal := traversal }, Socket.new recvs sends⟩ = (.returned (), o) ∧
      o.sock.output.buffer.unread = [] ∧
      ∀ (cut : List Segment) (sends' : Nat → SendCompletion),
        cut.flatMap Segment.bytes = o.sock.output.sent →
        ∃ s₁ s₂ req, readHttpLine.run (Socket.new (cut.map .data) sends') =
            (.returned ⟨ascii "HTTP/1.1 " ++ phrase, true⟩, s₁) ∧
          (readHeaders {}).run s₁ = (.returned (⟨[], true⟩, req), s₂) ∧
          (∀ name, req.getHeader name = Header.lookup (headers calls) name) ∧
          req.framing = some (frame calls) ∧
          ∀ size : Int, writes.flatten.length ≤ size → ∃ b b',
            (HttpBody.read size).run ⟨frame calls, s₂⟩ =
              (.returned (writes.flatten, writes.flatten.length), b) ∧
            HttpBody.hasIncoming.run b = (.returned false, b') ∧ b'.sock.pending = [] := by
  -- the output when its headers go out, and the text that goes out
  let res : HttpOutput :=
    { status := status, headers := Header.store (headers calls) [], traversal := traversal }
  have hsent : res.sendHeaders = (.ok (), { res with
      headersWritten := true, chunkedEncoding := HttpOutput.encodesChunked res.headers }) := by
    rw [HttpOutput.sendHeaders, if_neg Bool.false_ne_true]
    simp only [res, hphrase]
  have hchunked : res.sendHeaders.2.chunkedEncoding = chunkedSet calls := by
    rw [hsent, chunkedSet, ← Header.find_store]
    rfl
  obtain ⟨hs, hmap⟩ := exists_headers (headers calls) (htraversal res.headers)
  have hhead : res.headText = ascii "HTTP/1.1 " ++ phrase ++ [cr, lf] ++
      (hs.flatMap Header.wire ++ [cr, lf]) := by
    have hlines : (res.traversal res.headers).flatMap HttpOutput.lineText =
        hs.flatMap Header.wire := by
      rw [show res.traversal res.headers = hs.map fun h => (h.name, h.value) from hmap.symm,
        List.flatMap_map]
      congr 1
      funext h
      simp [HttpOutput.lineText, Header.wire, Header.line, crlf,
        show ascii ": " = [colon, space] from rfl]
    rw [HttpOutput.headText, if_neg Bool.false_ne_true, hlines]
    simp only [res, hphrase, crlf, List.append_assoc]
  obtain ⟨l, hstate, hdata, hwire⟩ := exists_body hwrites hlength hchunked
  obtain ⟨s', hrun, ⟨-, -, -, hwritten⟩, hu⟩ := HttpOutput.writeAll_run
    (o := { res := res, sock := Socket.new recvs sends })
    (fun hmem => (hwrites [] hmem).1 rfl) hsends (by rw [hsent])
  refine ⟨{ res := res.sendHeaders.2, sock := s' }, ?_, hu, fun cut sends' hcut => ?_⟩
  · rw [HttpOutput.respond, Coro.run_modify_bind, foldl_perform]
    exact hrun
  -- what was sent is what the reader has to come
  have hpending : (Socket.new (cut.map .data) sends').pending =
      ascii "HTTP/1.1 " ++ phrase ++ [cr, lf] ++ (hs.flatMap Header.wire ++ [cr, lf] ++ l.wire) := by
    rw [Output.written, hu, List.append_nil] at hwritten
    rw [Socket.pending_new, Input.carried_data, hcut]
    refine hwritten.trans ?_
    rw [hwire, ← List.append_assoc, hhead]
    simp [Output.written, Socket.new, List.append_assoc]
  have hline : lf ∉ ascii "HTTP/1.1 " ++ phrase := by
    rw [List.mem_append, not_or]
    exact ⟨by decide, lf_not_mem_phrase hphrase⟩
  obtain ⟨s₁, hrun₁, hc₁⟩ := readHttpLine_crlf _ _ hline hpending
  obtain ⟨s₂, hrun₂, hc₂⟩ := readHeaders_run {} hs l.wire (hc₁.rest_eq hpending)
  have hget : ∀ name, ({ headers := Header.store hs [] } : HttpRequest).getHeader name =
      Header.lookup (headers calls) name := by
    apply find_perm
    rw [hmap]
    exact htraversal res.headers
  refine ⟨s₁, s₂, _, hrun₁, hrun₂, hget, framing_eq hget hboth, fun size hsize => ?_⟩
  have hat : l.At ⟨frame calls, s₂⟩ [] :=
    ⟨hstate.symm, by rw [List.append_nil]; exact hc₂.rest_eq (hc₁.rest_eq hpending)⟩
  rw [← hdata] at hsize ⊢
  exact HttpBody.read_all hat hsize

theorem response_reads_back_hi :
    ∃ o, (HttpOutput.respond .OK [.setContentLength 2 (by omega)] [ascii "hi"]).run
        ⟨{ traversal := id }, Socket.new [] fun _ => .accepted 0⟩ = (.returned (), o) ∧
      o.sock.output.buffer.unread = [] := by
  have hwrites : ∀ w ∈ [ascii "hi"], w ≠ [] ∧ w.length < 2 ^ 63 := by decide
  obtain ⟨o, hrun, hu, -⟩ := response_reads_back .OK (ascii "200 OK") rfl
    [.setContentLength 2 (by omega)] [ascii "hi"] hwrites (by decide) (by decide) id
    (fun m => List.Perm.refl m) [] (fun _ => .accepted 0) fun _ => ⟨0, rfl⟩
  exact ⟨o, hrun, hu⟩

end CppEvent
