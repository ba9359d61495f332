import CppEvent.Http.Draining

/-!
# The grammar of a chunked body

`IsChunked` is the grammar: size lines with an optional extension, the data and its line end, a size
line of zero, trailer lines, an empty line. At the end of a body `has_incoming` takes one line, whatever
it is (`trailers_consumed_iff`), and elsewhere more than the grammar allows (`drain_sound_iff`).
-/

namespace CppEvent

open Coroutine

abbrev semicolon : Byte := 59

/-- A line with its line end, which is LF, optionally preceded by CR. -/
structure TextLine where
  text : Bytes
  withCr : Bool
  no_lf : lf ∉ text
  stripped : withCr = false → text.getLast? ≠ some cr

namespace TextLine

def wire (l : TextLine) : Bytes := if l.withCr then l.text ++ [cr, lf] else l.text ++ [lf]

theorem cutLine_wire (l : TextLine) (rest : Bytes) :
    cutLine (l.wire ++ rest) = some (l.text, rest) := by
  rw [wire]
  split
  · have hline : lf ∉ l.text ++ [cr] := by simp [l.no_lf, lf, cr]
    have hcut := cutLine_append hline rest
    rw [stripLineEnd_crlf] at hcut
    rw [← hcut]
    simp
  · rename_i hcr
    have hcut := cutLine_append l.no_lf rest
    rw [stripLineEnd, List.dropLast_concat, if_neg (l.stripped (by simpa using hcr))] at hcut
    rw [← hcut]
    simp

theorem wire_ne_nil (l : TextLine) : l.wire ≠ [] := by
  rw [wire]
  split <;> simp

theorem wire_of_text_nil {l : TextLine} (h : l.text = []) : l.wire = [lf] ∨ l.wire = [cr, lf] := by
  rw [wire, h]
  split
  · exact .inr rfl
  · exact .inl rfl

end TextLine

theorem cutLine_eq_some_iff {stream val rest : Bytes} :
    cutLine stream = some (val, rest) ↔ ∃ l : TextLine, l.text = val ∧ stream = l.wire ++ rest := by
  constructor
  · intro h
    obtain ⟨line, hline, rfl, rfl⟩ := cutLine_eq_some h
    rw [stripLineEnd, List.dropLast_concat]
    by_cases hcr : line.getLast? = some cr
    · obtain ⟨text, rfl⟩ := List.getLast?_eq_some_iff.mp hcr
      have hno : lf ∉ text := fun hm => hline (List.mem_append_left _ hm)
      refine ⟨⟨text, true, hno, fun h => by cases h⟩, ?_, ?_⟩
      · rw [if_pos hcr, List.dropLast_concat]
      · simp [TextLine.wire]
    · refine ⟨⟨line, false, hline, fun _ => hcr⟩, ?_, ?_⟩
      · rw [if_neg hcr]
      · simp [TextLine.wire]
  · rintro ⟨l, rfl, rfl⟩
    exact l.cutLine_wire rest

/-! ## Sizes -/

/-- A chunk size in the range of `long`, and behind it nothing or an extension. -/
def IsSize (text : Bytes) (n : Nat) : Prop :=
  ∃ digits extension, text = digits ++ extension ∧ Numeral.IsNumeral (digit 16) digits ∧
    Numeral.value (digit 16) 16 digits = n ∧ n < 2 ^ 63 ∧
    (extension = [] ∨ extension.head? = some semicolon)

/-- What begins with a number, which may be a zero with a minus sign, and goes on in any way. -/
def BeginsWithSize (text : Bytes) (n : Nat) : Prop :=
  ∃ number rest, text = number ++ rest ∧ Denotes 16 number n ∧ Numeral.Stops (digit 16) rest ∧
    n < 2 ^ 63

theorem IsSize.begins {text : Bytes} {n : Nat} (h : IsSize text n) : BeginsWithSize text n := by
  obtain ⟨digits, extension, rfl, hdigits, rfl, hlt, hext⟩ := h
  refine ⟨digits, extension, rfl, .inl ⟨hdigits, rfl⟩, fun c hc => ?_, hlt⟩
  rcases hext with rfl | hhead
  · cases hc
  · rw [hhead] at hc
    cases hc
    decide

theorem BeginsWithSize.ne_nil {text : Bytes} {n : Nat} (h : BeginsWithSize text n) : text ≠ [] := by
  obtain ⟨number, rest, rfl, hnumber, -⟩ := h
  simp [hnumber.ne_nil]

theorem chunkSize_eq_some_iff {val : Bytes} {n : Nat} :
    chunkSize val = some n ↔ BeginsWithSize val n := by
  have hread : chunkSize val = some n ↔ ∃ rest, fromChars 16 val = .ok n rest := by
    rw [chunkSize]
    rcases fromChars 16 val with _ | _ | ⟨z | m, rest⟩
    · simp
    · simp
    · simp
    · simp
  rw [hread, BeginsWithSize]
  simp only [fromChars_eq_ok_iff]
  constructor
  · rintro ⟨rest, number, hval, hnumber, hrest, -, hlt⟩
    exact ⟨number, rest, hval, hnumber, hrest, by omega⟩
  · rintro ⟨number, rest, hval, hnumber, hrest, hlt⟩
    exact ⟨rest, number, hval, hnumber, hrest, by omega, by omega⟩

def MaybeLineEnd (lead : Bytes) : Prop := lead = [] ∨ lead = [lf] ∨ lead = [cr, lf]

/-- What `has_incoming` takes for a size line. -/
theorem announced_eq_some_iff {stream rest : Bytes} {n : Nat} :
    announced stream = some (n, rest) ↔ ∃ lead, ∃ l : TextLine, MaybeLineEnd lead ∧
      BeginsWithSize l.text n ∧ stream = lead ++ l.wire ++ rest := by
  have hsize : announced stream = some (n, rest) ↔
      ∃ val, sizeLine stream = some (val, rest) ∧ BeginsWithSize val n := by
    rw [announced, Option.bind_eq_some_iff]
    constructor
    · rintro ⟨⟨val, rest'⟩, hline, hn⟩
      obtain ⟨n', hn', heq⟩ := Option.map_eq_some_iff.mp hn
      obtain ⟨rfl, rfl⟩ := Prod.mk.inj heq
      exact ⟨val, hline, chunkSize_eq_some_iff.mp hn'⟩
    · rintro ⟨val, hline, hn⟩
      refine ⟨(val, rest), hline, ?_⟩
      simp only [chunkSize_eq_some_iff.mpr hn, Option.map_some]
  rw [hsize]
  constructor
  · rintro ⟨val, hline, hn⟩
    rcases hcut : cutLine stream with _ | ⟨first, mid⟩
    · rw [sizeLine_of_none hcut] at hline
      cases hline
    · by_cases hfirst : first = []
      · subst hfirst
        rw [sizeLine_of_empty hcut] at hline
        obtain ⟨blank, hblank, rfl⟩ := cutLine_eq_some_iff.mp hcut
        obtain ⟨l, rfl, rfl⟩ := cutLine_eq_some_iff.mp hline
        exact ⟨blank.wire, l, .inr (TextLine.wire_of_text_nil hblank), hn,
          (List.append_assoc _ _ _).symm⟩
      · rw [sizeLine_of_ne hcut hfirst] at hline
        obtain ⟨rfl, rfl⟩ := Prod.mk.inj (Option.some.inj hline)
        obtain ⟨l, rfl, rfl⟩ := cutLine_eq_some_iff.mp hcut
        exact ⟨[], l, .inl rfl, hn, rfl⟩
  · rintro ⟨lead, l, hlead, hn, rfl⟩
    refine ⟨l.text, ?_, hn⟩
    have hl := l.cutLine_wire rest
    rcases hlead with rfl | hlead
    · exact sizeLine_of_ne hl hn.ne_nil
    · have hcut : cutLine (lead ++ (l.wire ++ rest)) = some ([], l.wire ++ rest) := by
        rcases hlead with rfl | rfl
        · exact cutLine_append List.not_mem_nil _
        · exact cutLine_append (show lf ∉ [cr] by decide) _
      rw [List.append_assoc, sizeLine_of_empty hcut, hl]

/-! ## Bodies -/

/-- A chunked body with these trailers, its bytes and its data. -/
inductive IsChunked : List TextLine → Bytes → Bytes → Prop
  | last {trailers : List TextLine} {line blank : TextLine} (hsize : IsSize line.text 0)
      (htrailers : ∀ l ∈ trailers, l.text ≠ []) (hblank : blank.text = []) :
      IsChunked trailers (line.wire ++ trailers.flatMap TextLine.wire ++ blank.wire) []
  | chunk {trailers : List TextLine} {line blank : TextLine} {front wire data : Bytes}
      (hne : front ≠ []) (hsize : IsSize line.text front.length) (hblank : blank.text = [])
      (htail : IsChunked trailers wire data) :
      IsChunked trailers (line.wire ++ front ++ blank.wire ++ wire) (front ++ data)

/-- What is drained without an exception: the line end before a size line may be there or not, and
anything may follow a size on its line, and the last size line. -/
inductive LooselyChunked : Bytes → Prop
  | last {lead rest : Bytes} {line : TextLine} (hlead : MaybeLineEnd lead)
      (hsize : BeginsWithSize line.text 0) : LooselyChunked (lead ++ line.wire ++ rest)
  | chunk {lead front rest : Bytes} {line : TextLine} (hlead : MaybeLineEnd lead) (hne : front ≠ [])
      (hsize : BeginsWithSize line.text front.length) (htail : LooselyChunked rest) :
      LooselyChunked (lead ++ line.wire ++ (front ++ rest))

theorem looselyChunked_iff {stream : Bytes} :
    LooselyChunked stream ↔ ∃ data left, Drains true stream data left := by
  constructor
  · intro h
    induction h with
    | @last lead rest line hlead hsize =>
      obtain ⟨left, hleft⟩ : ∃ left, afterLast true rest = some left := by
        rw [afterLast]
        split
        · exact ⟨_, rfl⟩
        · exact ⟨_, rfl⟩
      exact ⟨[], left, .last (announced_eq_some_iff.mpr ⟨lead, line, hlead, hsize, rfl⟩) hleft⟩
    | @chunk lead front rest line hlead hne hsize htail ih =>
      obtain ⟨data, left, hd⟩ := ih
      exact ⟨front ++ data, left,
        .chunk hne (announced_eq_some_iff.mpr ⟨lead, line, hlead, hsize, rfl⟩) hd⟩
  · rintro ⟨data, left, h⟩
    induction h with
    | last hsize hend =>
      obtain ⟨lead, line, hlead, hn, rfl⟩ := announced_eq_some_iff.mp hsize
      exact .last hlead hn
    | chunk hne hsize htail ih =>
      obtain ⟨lead, line, hlead, hn, rfl⟩ := announced_eq_some_iff.mp hsize
      exact .chunk hlead hne hn ih

variable {trailers : List TextLine} {wire data : Bytes}

theorem IsChunked.firstLine (h : IsChunked trailers wire data) :
    ∃ (line : TextLine) (n : Nat) (rest : Bytes),
      IsSize line.text n ∧ wire = line.wire ++ rest := by
  cases h with
  | @last line blank hsize htrailers hblank =>
    exact ⟨line, 0, _, hsize, List.append_assoc _ _ _⟩
  | @chunk line blank front wire data hne hsize hblank htail =>
    exact ⟨line, _, front ++ blank.wire ++ wire, hsize, by simp only [List.append_assoc]⟩

/-- `has_incoming` skips the line end before a size line. -/
theorem IsChunked.announced_lead (h : IsChunked trailers wire data) {blank : TextLine}
    (hblank : blank.text = []) (rest : Bytes) :
    announced (blank.wire ++ (wire ++ rest)) = announced (wire ++ rest) := by
  obtain ⟨line, n, more, hsize, rfl⟩ := h.firstLine
  have hread : ∀ lead, MaybeLineEnd lead →
      announced (lead ++ (line.wire ++ more ++ rest)) = some (n, more ++ rest) := fun lead hlead =>
    announced_eq_some_iff.mpr ⟨lead, line, hlead, hsize.begins, by simp only [List.append_assoc]⟩
  rw [hread _ (.inr (TextLine.wire_of_text_nil hblank))]
  exact (hread [] (.inl rfl)).symm

theorem Drains.congr {closes : Bool} {stream stream' data left : Bytes}
    (h : announced stream = announced stream') :
    Drains closes stream data left ↔ Drains closes stream' data left := by
  constructor
  · intro hd
    cases hd with
    | last hsize hend => exact .last (h ▸ hsize) hend
    | chunk hne hsize htail => exact .chunk hne (h ▸ hsize) htail
  · intro hd
    cases hd with
    | last hsize hend => exact .last (h ▸ hsize) hend
    | chunk hne hsize htail => exact .chunk hne (h ▸ hsize) htail

/-- What is drained from a chunked body is its data, and with it the first trailer or else the empty
line is taken. -/
theorem IsChunked.drains (h : IsChunked trailers wire data) (closes : Bool) (rest : Bytes) :
    ∃ beyond, (beyond = [] ↔ trailers = []) ∧
      ∀ data' left, Drains closes (wire ++ rest) data' left ↔
        data' = data ∧ left = beyond ++ rest := by
  induction h with
  | @last line blank hsize htrailers hblank =>
    have hread : announced (line.wire ++ trailers.flatMap TextLine.wire ++ blank.wire ++ rest) =
        some (0, trailers.flatMap TextLine.wire ++ blank.wire ++ rest) :=
      announced_eq_some_iff.mpr ⟨[], line, .inl rfl, hsize.begins, by
        simp only [List.append_assoc, List.nil_append]⟩
    simp only [Drains.last_iff hread]
    cases trailers with
    | nil =>
      refine ⟨[], by simp, fun data' left => ?_⟩
      rw [List.flatMap_nil, List.nil_append, afterLast, blank.cutLine_wire]
      simp [eq_comm]
    | cons trailer trailers =>
      refine ⟨trailers.flatMap TextLine.wire ++ blank.wire, by simp [blank.wire_ne_nil],
        fun data' left => ?_⟩
      rw [List.flatMap_cons, List.append_assoc, List.append_assoc, afterLast, trailer.cutLine_wire]
      simp [eq_comm]
  | @chunk line blank front wire data hne hsize hblank htail ih =>
    obtain ⟨beyond, hover, hd⟩ := ih
    refine ⟨beyond, hover, fun data' left => ?_⟩
    have hread : announced (line.wire ++ front ++ blank.wire ++ wire ++ rest) =
        some (front.length, front ++ (blank.wire ++ (wire ++ rest))) :=
      announced_eq_some_iff.mpr ⟨[], line, .inl rfl, hsize.begins, by
        simp only [List.append_assoc, List.nil_append]⟩
    rw [Drains.chunk_iff (List.length_pos_iff.mpr hne).ne' hread]
    constructor
    · rintro ⟨front', rest', data', hlen, hsplit, rfl, hd'⟩
      obtain ⟨rfl, rfl⟩ := List.append_inj hsplit hlen.symm
      rw [Drains.congr (htail.announced_lead hblank rest), hd] at hd'
      exact ⟨by rw [hd'.1], hd'.2⟩
    · rintro ⟨rfl, rfl⟩
      refine ⟨front, _, data, rfl, rfl, rfl, ?_⟩
      rw [Drains.congr (htail.announced_lead hblank rest), hd]
      exact ⟨rfl, rfl⟩

/-! ## Bodies that arrive byte by byte -/

def byteByByte (stream : Bytes) : Socket :=
  .new ((stream.map Segment.single).map .data ++ [.closed]) fun _ => .accepted 0

theorem endsIn_byteByByte (stream : Bytes) : Input.EndsIn true (byteByByte stream).input.recvs :=
  (Input.endsIn_map_data _ _).mpr rfl

theorem pending_byteByByte (stream : Bytes) : (byteByByte stream).pending = stream := by
  rw [byteByByte, Socket.pending_new, Input.carried_map_data, Segment.flatMap_single]
  exact List.append_nil stream

def TextLine.crlf (text : Bytes) (h : lf ∉ text) : TextLine where
  text := text
  withCr := true
  no_lf := h
  stripped := fun h => by cases h

theorem isSize_zero : IsSize (ascii "0") 0 :=
  ⟨ascii "0", [], by decide, ⟨by decide, List.all_eq_true.mp (by decide)⟩, by decide, by decide,
    .inl rfl⟩

theorem isChunked_last {trailers : List TextLine} (h : ∀ l ∈ trailers, l.text ≠ []) :
    IsChunked trailers ((TextLine.crlf (ascii "0") (by decide)).wire ++
      trailers.flatMap TextLine.wire ++ (TextLine.crlf [] (by decide)).wire) [] :=
  .last isSize_zero h rfl

theorem isChunked_abc {trailers : List TextLine} (h : ∀ l ∈ trailers, l.text ≠ []) :
    IsChunked trailers ((TextLine.crlf (ascii "3;x") (by decide)).wire ++ ascii "abc" ++
      (TextLine.crlf [] (by decide)).wire ++ ((TextLine.crlf (ascii "0") (by decide)).wire ++
        trailers.flatMap TextLine.wire ++ (TextLine.crlf [] (by decide)).wire)) (ascii "abc" ++ []) :=
  .chunk (by decide) ⟨ascii "3", ascii ";x", by decide, ⟨by decide, List.all_eq_true.mp (by decide)⟩,
    by decide, by decide, .inr rfl⟩ rfl (isChunked_last h)

/-! ## Draining -/

theorem drainsFrom_start {closes : Bool} (s : Socket) (data left : Bytes) :
    DrainsFrom closes ⟨⟨0, false⟩, s⟩ data left ↔ Drains closes s.pending data left := by
  rw [DrainsFrom, if_neg Bool.false_ne_true]
  constructor
  · rintro ⟨front, rest, data', hfront, hp, rfl, hd⟩
    obtain rfl : front = [] := List.length_eq_zero_iff.mp hfront
    rwa [hp]
  · exact fun hd => ⟨[], _, data, rfl, rfl, rfl, hd⟩

theorem chunked_start {closes : Bool} {s : Socket} (hends : Input.EndsIn closes s.input.recvs) :
    Chunked closes ⟨⟨0, false⟩, s⟩ where
  ended := fun h => by cases h
  ends := hends

/-- Draining a chunked body leaves the socket behind its empty line exactly if there are no trailers. -/
theorem trailers_consumed_iff (h : IsChunked trailers wire data) {closes : Bool} {s : Socket}
    (hends : Input.EndsIn closes s.input.recvs) {rest : Bytes} (hp : s.pending = wire ++ rest)
    (calls : Nat → BodyCall) : ∃ replies b',
      (drain calls).run ⟨⟨0, false⟩, s⟩ = (.returned replies, b') ∧
        (b'.sock.pending = rest ↔ trailers = []) := by
  obtain ⟨beyond, hover, hd⟩ := h.drains closes rest
  have hall : ∀ data' left, DrainsFrom closes ⟨⟨0, false⟩, s⟩ data' left ↔
      data' = data ∧ left = beyond ++ rest := fun data' left => by rw [drainsFrom_start, hp, hd]
  obtain ⟨o, b', hrun, ⟨replies, data', rfl, -, hdrained⟩ | ⟨-, hno⟩⟩ :=
    drain_leaves calls (chunked_start hends)
  · refine ⟨replies, b', hrun, ?_⟩
    have hleft : b'.sock.pending = beyond ++ rest :=
      ((hdrained data (beyond ++ rest)).mp ((hall _ _).mpr ⟨rfl, rfl⟩)).2.symm
    rw [hleft, ← hover, List.append_left_eq_self]
  · exact absurd ((hall data (beyond ++ rest)).mpr ⟨rfl, rfl⟩) (hno _ _)

/-- A body without trailers, and one with a trailer. -/
theorem trailers_consumed_abc :
    (∃ replies b', (drain fun _ => .read 1 Nat.one_pos).run
        ⟨⟨0, false⟩, byteByByte (ascii "3;x\r\nabc\r\n0\r\n\r\nGET")⟩ = (.returned replies, b') ∧
      b'.sock.pending = ascii "GET") ∧
    ∃ replies b', (drain fun _ => .read 1 Nat.one_pos).run
        ⟨⟨0, false⟩, byteByByte (ascii "3;x\r\nabc\r\n0\r\nA: b\r\n\r\nGET")⟩ =
          (.returned replies, b') ∧
      b'.sock.pending ≠ ascii "GET" := by
  constructor
  · obtain ⟨replies, b', hrun, hiff⟩ := trailers_consumed_iff
      (isChunked_abc fun _ hl => absurd hl List.not_mem_nil) (endsIn_byteByByte _)
      (pending_byteByByte _) fun _ => .read 1 Nat.one_pos
    exact ⟨replies, b', hrun, hiff.mpr rfl⟩
  · have htrailer : ∀ l ∈ [TextLine.crlf (ascii "A: b") (by decide)], l.text ≠ [] :=
      List.forall_mem_singleton.mpr (List.cons_ne_nil _ _)
    obtain ⟨replies, b', hrun, hiff⟩ := trailers_consumed_iff (isChunked_abc htrailer)
      (endsIn_byteByByte _) (pending_byteByByte _) fun _ => .read 1 Nat.one_pos
    exact ⟨replies, b', hrun, hiff.not.mpr (List.cons_ne_nil _ _)⟩

/-- Two trailers, the second of which is left for the next request. -/
theorem trailers_left :
    let trailers := [TextLine.crlf (ascii "A: b") (by decide), .crlf (ascii "C: d") (by decide)]
    let b : BodySocket := ⟨⟨0, false⟩, byteByByte (ascii "0\r\nA: b\r\nC: d\r\n\r\n")⟩
    IsChunked trailers b.sock.pending [] ∧
      ∃ b', (drain fun _ => .read 1 Nat.one_pos).run b = (.returned [], b') ∧
        b'.sock.pending = ascii "C: d\r\n\r\n" := by
  refine ⟨?_, _, rfl, rfl⟩
  rw [pending_byteByByte]
  exact isChunked_last fun l hl => by
    rcases List.mem_pair.mp hl with rfl | rfl <;> exact List.cons_ne_nil _ _

/-- What draining a stream may come to: the data of a chunked body, or an exception. -/
def DrainsSoundly (stream : Bytes) (o : Outcome Exn (List BodyReply)) (b' : BodySocket) : Prop :=
  match o with
  | .returned replies => ∃ trailers wire data, IsChunked trailers wire data ∧
      stream = wire ++ b'.sock.pending ∧ Replies replies data
  | .threw _ => True
  | _ => False

/-- Draining yields the data of a chunked body or throws exactly if the stream begins with a chunked
body without trailers or is not even loosely chunked. -/
theorem drain_sound_iff {s : Socket} (hends : Input.EndsIn true s.input.recvs)
    (calls : Nat → BodyCall) :
    DrainsSoundly s.pending ((drain calls).run ⟨⟨0, false⟩, s⟩).1
        ((drain calls).run ⟨⟨0, false⟩, s⟩).2 ↔
      (∃ wire data rest, IsChunked [] wire data ∧ s.pending = wire ++ rest) ∨
        ¬ LooselyChunked s.pending := by
  obtain ⟨o, b', hrun, hleaves⟩ :=
    drain_leaves calls (chunked_start hends)
  rw [hrun]
  simp only [drainsFrom_start] at hleaves
  rcases hleaves with ⟨replies, data, rfl, hreplies, hdrained⟩ | ⟨hstarved, hno⟩
  · have hloose : LooselyChunked s.pending :=
      looselyChunked_iff.mpr ⟨data, _, (hdrained _ _).mpr ⟨rfl, rfl⟩⟩
    rw [or_iff_left (not_not_intro hloose)]
    constructor
    · rintro ⟨trailers, wire, data', h, hp, -⟩
      obtain ⟨beyond, hover, hd⟩ := h.drains true b'.sock.pending
      rw [hp] at hdrained
      have hleft := ((hdrained data' (beyond ++ b'.sock.pending)).mp ((hd _ _).mpr ⟨rfl, rfl⟩)).2
      rw [List.append_left_eq_self, hover] at hleft
      subst hleft
      exact ⟨wire, data', _, h, hp⟩
    · rintro ⟨wire, data', rest, h, hp⟩
      obtain ⟨beyond, hover, hd⟩ := h.drains true rest
      obtain rfl := hover.mpr rfl
      rw [hp] at hdrained
      obtain ⟨rfl, hleft⟩ := (hdrained data' rest).mp ((hd _ _).mpr ⟨rfl, rfl⟩)
      exact ⟨[], wire, data', h, by rw [hp, hleft], hreplies⟩
  · have hloose : ¬ LooselyChunked s.pending := fun h => by
      obtain ⟨data, left, hd⟩ := looselyChunked_iff.mp h
      exact hno data left hd
    rcases hstarved with ⟨e, rfl⟩ | ⟨-, hopen⟩
    · exact iff_of_true trivial (.inr hloose)
    · cases hopen

/-- A chunk and the last one. -/
theorem drain_sound_abc :
    DrainsSoundly (byteByByte (ascii "3;x\r\nabc\r\n0\r\n\r\n")).pending
      ((drain fun _ => .skip 1 Nat.one_pos).run
        ⟨⟨0, false⟩, byteByByte (ascii "3;x\r\nabc\r\n0\r\n\r\n")⟩).1
      ((drain fun _ => .skip 1 Nat.one_pos).run
        ⟨⟨0, false⟩, byteByByte (ascii "3;x\r\nabc\r\n0\r\n\r\n")⟩).2 := by
  have hends := endsIn_byteByByte (ascii "3;x\r\nabc\r\n0\r\n\r\n")
  have hchunked : ∃ wire data rest, IsChunked [] wire data ∧
      (byteByByte (ascii "3;x\r\nabc\r\n0\r\n\r\n")).pending = wire ++ rest :=
    ⟨_, _, [], isChunked_abc fun _ hl => absurd hl List.not_mem_nil, pending_byteByByte _⟩
  generalize byteByByte (ascii "3;x\r\nabc\r\n0\r\n\r\n") = s at hends hchunked ⊢
  exact (drain_sound_iff hends _).mpr (.inl hchunked)

/-- A line end before the first size line, letters behind the size, no line end behind the data, and
no empty line. -/
theorem drain_takes_loose :
    let stream := ascii "\r\n5zz\r\nhello0\r\n"
    let result := (drain fun _ => .read 8 (by decide)).run ⟨⟨0, false⟩, byteByByte stream⟩
    result.1 = .returned [.appended (ascii "hello")] ∧
      ¬ DrainsSoundly stream result.1 result.2 := by
  refine ⟨rfl, ?_⟩
  rintro ⟨trailers, wire, data, h, hp, -⟩
  obtain ⟨line, n, rest, hsize, rfl⟩ := h.firstLine
  have hempty : cutLine (ascii "\r\n5zz\r\nhello0\r\n") =
      some ([], ascii "5zz\r\nhello0\r\n") := rfl
  rw [hp, List.append_assoc, line.cutLine_wire] at hempty
  exact hsize.begins.ne_nil (Prod.mk.inj (Option.some.inj hempty)).1

end CppEvent
