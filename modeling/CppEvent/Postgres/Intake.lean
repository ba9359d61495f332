import CppEvent.Library.Transition
import CppEvent.Postgres.Sync

/-!
# Messages as `init` takes them

`init` and `handle_auth` do not take a message by its length field: of a request only as much is read
as its kind asks for, and what a server packs behind that is read as the next header. A `Taken` is
what is really taken; a stream falls into them in one way (`UpToReady.unique`), and a call that returns
has taken those up to the first ReadyForQuery (`initRound_returned` is its round).
-/

namespace CppEvent

open Coroutine

/-- How many bytes are taken of a request: always its kind, and the rest for the messages of SASL. -/
def requestSize (size : Int) : AuthType → Nat
  | .sasl | .saslContinue | .saslFinal => max 4 size.toNat
  | _ => 4

/-- How many bytes are taken behind a header, where these come next. -/
def takenSize (info : ResponseInfo) (data : Bytes) : Nat :=
  match info.type with
  | .authentication => requestSize info.size (AuthType.ofCode (Handshake.authCode data))
  | .backendKeyData | .parameterStatus | .readyForQuery | .noticeResponse => info.size.toNat
  | _ => 0

/-- A header and what is taken behind it. -/
structure Taken where
  header : Bytes
  data : Bytes
  length_header : header.length = headerSize
  length_data : data.length = takenSize (decodeHeader header) data

namespace Taken

def type (m : Taken) : ResponseType := (decodeHeader m.header).type

def size (m : Taken) : Int := (decodeHeader m.header).size

def wire (m : Taken) : Bytes := m.header ++ m.data

def authType (m : Taken) : Option AuthType :=
  if m.type = .authentication then some (AuthType.ofCode (Handshake.authCode m.data)) else none

def authData (m : Taken) : Bytes := m.data.drop 4

theorem authType_eq {m : Taken} (h : m.type = .authentication) :
    m.authType = some (AuthType.ofCode (Handshake.authCode m.data)) := if_pos h

theorem authType_eq_none {m : Taken} (h : m.type ≠ .authentication) : m.authType = none := if_neg h

end Taken

theorem Handshake.authCode_append {data : Bytes} (h : 4 ≤ data.length) (rest : Bytes) :
    authCode (data ++ rest) = authCode data := by
  simp only [authCode]
  rw [List.getD_append _ _ _ 0 (by omega), List.getD_append _ _ _ 1 (by omega),
    List.getD_append _ _ _ 2 (by omega), List.getD_append _ _ _ 3 (by omega)]

theorem le_requestSize (size : Int) (kind : AuthType) : 4 ≤ requestSize size kind := by
  cases kind <;> simp [requestSize]

theorem takenSize_authentication {info : ResponseInfo} (h : info.type = .authentication)
    (data : Bytes) :
    takenSize info data = requestSize info.size (AuthType.ofCode (Handshake.authCode data)) := by
  simp only [takenSize, h]

theorem takenSize_congr {info : ResponseInfo} (h : info.type ≠ .authentication)
    (data data' : Bytes) : takenSize info data = takenSize info data' := by
  simp only [takenSize]
  split <;> first | contradiction | rfl

theorem taken_unique {info : ResponseInfo} {data data' rest rest' : Bytes}
    (h : data.length = takenSize info data) (h' : data'.length = takenSize info data')
    (heq : data ++ rest = data' ++ rest') : data = data' ∧ rest = rest' := by
  refine List.append_inj heq ?_
  by_cases hauth : info.type = .authentication
  -- the kind is read before anything depends on it
  · rw [takenSize_authentication hauth] at h h'
    have h4 : 4 ≤ data.length := h ▸ le_requestSize _ _
    have h4' : 4 ≤ data'.length := h' ▸ le_requestSize _ _
    have hcode : Handshake.authCode data = Handshake.authCode data' := by
      rw [← Handshake.authCode_append h4 rest, heq, Handshake.authCode_append h4']
    rw [h, h', hcode]
  · rw [h, h', takenSize_congr hauth data data']

theorem Taken.exists_whole {header data : Bytes} (hheader : header.length = headerSize)
    (htype : (decodeHeader header).type = .noticeResponse ∨
      (decodeHeader header).type = .backendKeyData ∨ (decodeHeader header).type = .parameterStatus ∨
      (decodeHeader header).type = .readyForQuery)
    (hdata : (data.length : Int) = (decodeHeader header).size) :
    ∃ m : Taken, m.header = header ∧ m.data = data := by
  have hsize : takenSize (decodeHeader header) data = (decodeHeader header).size.toNat := by
    rcases htype with h | h | h | h <;> simp only [takenSize, h]
  exact ⟨⟨header, data, hheader, by omega⟩, rfl, rfl⟩

theorem Taken.length_whole {m : Taken}
    (htype : m.type = .noticeResponse ∨ m.type = .backendKeyData ∨ m.type = .parameterStatus ∨
      m.type = .readyForQuery) : (m.data.length : Int) = m.size := by
  have hsize : takenSize (decodeHeader m.header) m.data = m.size.toNat := by
    simp only [Taken.type] at htype
    rcases htype with h | h | h | h <;> simp only [takenSize, h, Taken.size]
  have h0 : 0 ≤ m.size := Int.natCast_nonneg _
  rw [m.length_data, hsize]
  exact Int.toNat_of_nonneg h0

theorem Taken.length_authData {m : Taken} (htype : m.type = .authentication)
    (hkind : AuthType.ofCode (Handshake.authCode m.data) = .sasl ∨
      AuthType.ofCode (Handshake.authCode m.data) = .saslContinue ∨
      AuthType.ofCode (Handshake.authCode m.data) = .saslFinal) (h4 : 4 ≤ m.size) :
    (m.authData.length : Int) = m.size - 4 := by
  have hsize : requestSize m.size (AuthType.ofCode (Handshake.authCode m.data)) =
      max 4 m.size.toNat := by
    rcases hkind with h | h | h <;> rw [h, requestSize]
  rw [Taken.authData, List.length_drop, m.length_data, takenSize_authentication htype]
  change ((requestSize m.size _ - 4 : Nat) : Int) = _
  rw [hsize]
  generalize m.size = size at h4 ⊢
  omega

/-- A request is a message when its kind was read, and behind it what its kind asks for. -/
theorem Taken.exists_request {header typeData : Bytes} (more : Bytes)
    (hheader : header.length = headerSize) (htype : (decodeHeader header).type = .authentication)
    (h4 : typeData.length = 4)
    (hmore : more.length = match AuthType.ofCode (Handshake.authCode typeData) with
      | .sasl | .saslContinue | .saslFinal => ((decodeHeader header).size - 4).toNat
      | _ => 0) :
    ∃ m : Taken, m.header = header ∧ m.data = typeData ++ more ∧ m.type = .authentication ∧
      Handshake.authCode m.data = Handshake.authCode typeData ∧ m.authData = more := by
  have hcode := Handshake.authCode_append h4.ge more
  have hdata : (typeData ++ more).length = takenSize (decodeHeader header) (typeData ++ more) := by
    have hmax (size : Int) : 4 + (size - 4).toNat = max 4 size.toNat := by omega
    rw [takenSize_authentication htype, hcode, List.length_append, h4, hmore]
    cases AuthType.ofCode (Handshake.authCode typeData) <;> simp only [requestSize, hmax]
  refine ⟨⟨header, typeData ++ more, hheader, hdata⟩, rfl, rfl, htype, hcode, ?_⟩
  rw [Taken.authData, ← h4, List.drop_left]

/-- These come before the first ReadyForQuery of a stream. -/
def UpToReady (stream : Bytes) (pre : List Taken) : Prop := ∃ z rest,
  stream = (pre ++ [z]).flatMap Taken.wire ++ rest ∧ z.type = .readyForQuery ∧
    ∀ m ∈ pre, m.type ≠ .readyForQuery

theorem Taken.wire_unique {m m' : Taken} {rest rest' : Bytes}
    (h : m.wire ++ rest = m'.wire ++ rest') : m = m' ∧ rest = rest' := by
  obtain ⟨header, data, hheader, hdata⟩ := m
  obtain ⟨header', data', hheader', hdata'⟩ := m'
  simp only [Taken.wire, List.append_assoc] at h
  obtain ⟨rfl, hbehind⟩ := List.append_inj h (hheader.trans hheader'.symm)
  obtain ⟨rfl, hrest⟩ := taken_unique hdata hdata' hbehind
  exact ⟨rfl, hrest⟩

theorem UpToReady.unique {stream : Bytes} {pre pre' : List Taken} (h : UpToReady stream pre)
    (h' : UpToReady stream pre') : pre = pre' := by
  obtain ⟨z, rest, rfl, hz, hpre⟩ := h
  obtain ⟨z', rest', heq, hz', hpre'⟩ := h'
  induction pre generalizing pre' with
  | nil =>
    cases pre' with
    | nil => rfl
    | cons m' pre' =>
      simp only [List.nil_append, List.cons_append, List.flatMap_cons, List.append_assoc] at heq
      exact absurd ((Taken.wire_unique heq).1 ▸ hz) (hpre' m' List.mem_cons_self)
  | cons m pre ih =>
    cases pre' with
    | nil =>
      simp only [List.nil_append, List.cons_append, List.flatMap_cons, List.append_assoc] at heq
      exact absurd ((Taken.wire_unique heq).1 ▸ hz') (hpre m List.mem_cons_self)
    | cons m' pre' =>
      simp only [List.cons_append, List.flatMap_cons, List.append_assoc] at heq
      obtain ⟨rfl, htail⟩ := Taken.wire_unique heq
      rw [ih (fun m hm => hpre m (List.mem_cons_of_mem _ hm)) htail
        (fun m hm => hpre' m (List.mem_cons_of_mem _ hm))]

/-! ## What a read that returns has taken -/

namespace PgConnection

variable {α : Type} {c c' : PgConnection}

theorem onSock_returned {t : Coro Input Exn α} {a : α}
    (hrun : (onSock (Socket.onInput t)).run c = (.returned a, c')) :
    ∃ i, t.run c.sock.input = (.returned a, i) ∧ c' = { c with sock.input := i } := by
  obtain ⟨hreturned, hstate⟩ := Prod.mk.inj hrun
  exact ⟨_, Prod.ext hreturned rfl, hstate.symm⟩

theorem consumes_of_input {i : Input} {bs : Bytes} (h : c.sock.input.Consumes bs i) :
    c.Consumes bs { c with sock.input := i } := ⟨⟨h, rfl, rfl⟩, rfl⟩

theorem readInto_returned {size : Int} {bs : Bytes}
    (hrun : (onSock (Socket.readInto size true)).run c = (.returned bs, c')) :
    (bs.length : Int) = size ∧ c.Consumes bs c' := by
  obtain ⟨i, hinput, rfl⟩ := onSock_returned hrun
  rw [Input.readInto] at hinput
  split at hinput
  · cases (Prod.mk.inj hinput).1
  · obtain ⟨hlen, hc⟩ := Input.consume_returned hinput
    exact ⟨by omega, consumes_of_input hc⟩

theorem read_returned {size : Int} {bs : Bytes}
    (hrun : (onSock (Socket.read size true)).run c = (.returned bs, c')) :
    (bs.length : Int) = size ∧ c.Consumes bs c' := by
  obtain ⟨i, hinput, rfl⟩ := onSock_returned hrun
  rw [Input.read] at hinput
  split at hinput
  · cases (Prod.mk.inj hinput).1
  · obtain ⟨hlen, hc⟩ := Input.consume_returned hinput
    exact ⟨by omega, consumes_of_input hc⟩

theorem skip_returned {size n : Int} (hrun : (skip size).run c = (.returned n, c')) :
    ∃ bs : Bytes, (bs.length : Int) = size ∧ c.Consumes bs c' := by
  obtain ⟨i, hinput, rfl⟩ := onSock_returned hrun
  rw [Input.skip] at hinput
  split at hinput
  · cases (Prod.mk.inj hinput).1
  · obtain ⟨bs, i₁, hconsume, hpure⟩ := Coro.returned_of_bind hinput
    obtain ⟨-, rfl⟩ := Prod.mk.inj hpure
    obtain ⟨hlen, hc⟩ := Input.consume_returned hconsume
    exact ⟨bs, by omega, consumes_of_input hc⟩

theorem skipIfAny_returned {size n : Int} (h0 : 0 ≤ size)
    (hrun : (skipIfAny size).run c = (.returned n, c')) :
    ∃ bs : Bytes, (bs.length : Int) = size ∧ c.Consumes bs c' := by
  rw [skipIfAny] at hrun
  split at hrun
  · exact skip_returned hrun
  · obtain ⟨-, rfl⟩ := Prod.mk.inj hrun
    exact ⟨[], by rw [List.length_nil]; omega, Consumes.refl c⟩

theorem readHeader_returned {info : ResponseInfo} (hrun : readHeader.run c = (.returned info, c')) :
    ∃ header : Bytes, header.length = headerSize ∧ info = decodeHeader header ∧
      c.Consumes header c' := by
  obtain ⟨header, c₁, hread, hpure⟩ := Coro.returned_of_bind hrun
  obtain ⟨hinfo, rfl⟩ := Prod.mk.inj hpure
  obtain ⟨hlen, hc⟩ := readInto_returned hread
  exact ⟨header, by omega, (Outcome.returned.inj hinfo).symm, hc⟩

theorem decodeHeader_size_nonneg (header : Bytes) : 0 ≤ (decodeHeader header).size :=
  Int.natCast_nonneg _

theorem responseRound_returned {size : Int} {r : Int ⊕ ResponseInfo} (h0 : 0 ≤ size)
    (hrun : (responseRound true size).run c = (.returned r, c')) : ∃ before header : Bytes,
      (before.length : Int) = size ∧ header.length = headerSize ∧ c.Consumes (before ++ header) c' ∧
        r = if (decodeHeader header).type = .noticeResponse then .inl (decodeHeader header).size
          else .inr (decodeHeader header) := by
  obtain ⟨n, c₁, hskip, hrun⟩ := Coro.returned_of_bind hrun
  obtain ⟨info, c₂, hread, hrun⟩ := Coro.returned_of_bind hrun
  obtain ⟨before, hbefore, hc₁⟩ := skipIfAny_returned h0 hskip
  obtain ⟨header, hheader, rfl, hc₂⟩ := readHeader_returned hread
  refine ⟨before, header, hbefore, hheader, ?_⟩
  by_cases hnotice : (decodeHeader header).type = .noticeResponse
  · rw [if_pos ⟨rfl, hnotice⟩] at hrun
    obtain ⟨hr, rfl⟩ := Prod.mk.inj hrun
    rw [if_pos hnotice]
    exact ⟨hc₁.trans hc₂, (Outcome.returned.inj hr).symm⟩
  · rw [if_neg fun h => hnotice h.2] at hrun
    obtain ⟨hr, rfl⟩ := Prod.mk.inj hrun
    rw [if_neg hnotice]
    exact ⟨hc₁.trans hc₂, (Outcome.returned.inj hr).symm⟩

theorem iterate_responseRound_returned {n : Nat} {size : Int} {info : ResponseInfo} (h0 : 0 ≤ size)
    (hrun : (Coro.iterate (responseRound true) n size).run c = (.returned info, c')) :
    ∃ (before : Bytes) (ns : List Taken) (header : Bytes), (before.length : Int) = size ∧
      (∀ m ∈ ns, m.type = .noticeResponse) ∧ header.length = headerSize ∧
      info = decodeHeader header ∧ info.type ≠ .noticeResponse ∧
      c.Consumes (before ++ (ns.flatMap Taken.wire ++ header)) c' := by
  induction n generalizing c size with
  | zero => cases (Prod.mk.inj hrun).1
  | succ n ih =>
    rw [Coro.iterate] at hrun
    obtain ⟨r, c₁, hround, hrun⟩ := Coro.returned_of_bind hrun
    obtain ⟨before, header, hbefore, hheader, hc, rfl⟩ := responseRound_returned h0 hround
    by_cases hnotice : (decodeHeader header).type = .noticeResponse
    · rw [if_pos hnotice] at hrun
      obtain ⟨data, ns, last, hdata, hns, hlast, hinfo, hnot, hc'⟩ :=
        ih (decodeHeader_size_nonneg header) hrun
      obtain ⟨m, rfl, rfl⟩ := Taken.exists_whole hheader (.inl hnotice) hdata
      refine ⟨before, m :: ns, last, hbefore, List.forall_mem_cons.mpr ⟨hnotice, hns⟩, hlast, hinfo,
        hnot, ?_⟩
      have := hc.trans hc'
      simpa only [List.flatMap_cons, Taken.wire, List.append_assoc] using this
    · rw [if_neg hnotice] at hrun
      obtain ⟨hinfo, rfl⟩ := Prod.mk.inj hrun
      obtain rfl := Outcome.returned.inj hinfo
      exact ⟨before, [], header, hbefore, by simp, hheader, rfl, hnotice, hc⟩

theorem getResponseInfo_returned {info : ResponseInfo}
    (hrun : (getResponseInfo true).run c = (.returned info, c')) :
    ∃ (ns : List Taken) (header : Bytes), (∀ m ∈ ns, m.type = .noticeResponse) ∧
      header.length = headerSize ∧ info = decodeHeader header ∧ info.type ≠ .noticeResponse ∧
      c.Consumes (ns.flatMap Taken.wire ++ header) c' := by
  rw [getResponseInfo, Coro.run_loop] at hrun
  obtain ⟨before, ns, header, hbefore, hns, hheader, hinfo, hnot, hc⟩ :=
    iterate_responseRound_returned (Int.le_refl 0) hrun
  obtain rfl := List.eq_nil_of_length_eq_zero (Int.natCast_eq_zero.mp hbefore)
  exact ⟨ns, header, hns, hheader, hinfo, hnot, hc⟩

end PgConnection

end CppEvent
