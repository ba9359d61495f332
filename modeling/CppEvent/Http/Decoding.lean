import CppEvent.Http.Body

/-!
# Bodies on the wire

What a body reader has left of a body (`Left`): its bytes on the wire, the data they carry, and the
state of the reader that knows what it is in. Every operation of `http_body` moves from one such
position to a later one of the same body (`Left.Moves`), and what it delivers is a matter of the
pieces of data alone (`transfer_run`), whatever packets the bytes come in.
-/

namespace CppEvent

open Coroutine

/-- The line that announces a chunk: a size and what may follow it on the line. -/
structure SizeLine where
  digits : Bytes
  extension : Bytes
  numeral : Numeral.IsNumeral (digit 16) digits
  stops : Numeral.Stops (digit 16) extension
  no_lf : lf ∉ extension
  lt : Numeral.value (digit 16) 16 digits < 2 ^ 63

namespace SizeLine

def size (l : SizeLine) : Nat := Numeral.value (digit 16) 16 l.digits

def text (l : SizeLine) : Bytes := l.digits ++ l.extension

theorem text_ne_nil (l : SizeLine) : l.text ≠ [] := by
  simp [text, l.numeral.1]

theorem lf_not_mem_text (l : SizeLine) : lf ∉ l.text := by
  rw [text, List.mem_append, not_or]
  refine ⟨fun h => ?_, l.no_lf⟩
  have hdigit : (digit 16 lf).isSome := l.numeral.2 lf h
  exact absurd hdigit (by decide)

theorem fromChars_text (l : SizeLine) : fromChars 16 l.text = .ok l.size l.extension :=
  fromChars_numeral l.numeral l.stops l.lt

end SizeLine

structure Chunk where
  line : SizeLine
  data : Bytes
  nonempty : data ≠ []
  size_eq : line.size = data.length

/-- The size line of the last chunk. -/
structure LastChunk where
  line : SizeLine
  size_eq : line.size = 0

/-- A chunked body without trailers. -/
structure ChunkedBody where
  chunks : List Chunk
  last : LastChunk

def Chunk.wire (c : Chunk) : Bytes := c.line.text ++ [cr, lf] ++ c.data ++ [cr, lf]

def ChunkedBody.wire (b : ChunkedBody) : Bytes :=
  b.chunks.flatMap Chunk.wire ++ b.last.line.text ++ [cr, lf] ++ [cr, lf]

def ChunkedBody.abcd : ChunkedBody :=
  let two : SizeLine :=
    { digits := ascii "2", extension := []
      numeral := ⟨by decide, List.all_eq_true.1 (by decide)⟩
      stops := fun _ h => absurd h (by simp), no_lf := by simp, lt := by decide }
  { chunks :=
      [{ line := two, data := ascii "ab", nonempty := by decide, size_eq := by decide },
        { line := two, data := ascii "cd", nonempty := by decide, size_eq := by decide }]
    last :=
      { line :=
          { two with
            digits := ascii "0"
            numeral := ⟨by decide, List.all_eq_true.1 (by decide)⟩
            lt := by decide }
        size_eq := by decide } }

def ChunkedBody.firstLine (b : ChunkedBody) : SizeLine :=
  match b.chunks with
  | [] => b.last.line
  | c :: _ => c.line

def ChunkedBody.afterSize (b : ChunkedBody) : Bytes :=
  match b.chunks with
  | [] => [cr, lf]
  | c :: chunks => c.data ++ [cr, lf] ++ { b with chunks := chunks }.wire

theorem ChunkedBody.wire_eq (b : ChunkedBody) :
    b.wire = b.firstLine.text ++ [cr, lf] ++ b.afterSize := by
  rcases hb : b.chunks with _ | ⟨c, chunks⟩
  · simp [wire, firstLine, afterSize, hb]
  · simp [wire, firstLine, afterSize, hb, Chunk.wire]

/-- What is left of a body: data of a known length; a chunked body from one of its size lines on; or
the rest of a chunk's data, the end of that chunk, and a chunked body from the next size line on. -/
inductive Left where
  | counted (data : Bytes)
  | before (body : ChunkedBody)
  | within (data : Bytes) (body : ChunkedBody)

namespace Left

def wire : Left → Bytes
  | counted data => data
  | before body => body.wire
  | within data body => data ++ [cr, lf] ++ body.wire

/-- The data before the next line end or the end of the body. -/
def front : Left → Bytes
  | counted data => data
  | before _ => []
  | within data _ => data

def chunks : Left → List Chunk
  | counted _ => []
  | before body => body.chunks
  | within _ body => body.chunks

/-- Nothing is announced any more. -/
def ended : Left → Bool
  | counted _ => true
  | _ => false

/-- What `http_body` knows of its position. -/
def state (l : Left) : HttpBody := { incoming := l.front.length, ended := l.ended }

/-- The data left, in the pieces that the chunks cut it into. -/
def pieces (l : Left) : List Bytes := [l.front].filter (· ≠ []) ++ l.chunks.map Chunk.data

theorem pieces_of_front_nil {l : Left} (h : l.front = []) : l.pieces = l.chunks.map Chunk.data := by
  simp [pieces, h]

theorem pieces_of_front_ne_nil {l : Left} (h : l.front ≠ []) :
    l.pieces = l.front :: l.chunks.map Chunk.data := by
  simp [pieces, h]

def data (l : Left) : Bytes := l.pieces.flatten

theorem nil_not_mem_pieces (l : Left) : [] ∉ l.pieces := by
  rw [pieces, List.mem_append, not_or, List.mem_map]
  refine ⟨by simp, ?_⟩
  rintro ⟨c, _, hc⟩
  exact c.nonempty hc

/-- The reader is at this position of its body, with `rest` on the socket after the body. -/
def At (l : Left) (b : BodySocket) (rest : Bytes) : Prop :=
  b.body = l.state ∧ b.sock.pending = l.wire ++ rest

/-- From one position to a later one, having consumed what is between them. -/
def Moves (l : Left) (b : BodySocket) (l' : Left) (b' : BodySocket) : Prop :=
  b'.body = l'.state ∧ ∃ bs, l.wire = bs ++ l'.wire ∧ b.sock.Consumes bs b'.sock

theorem Moves.refl {l : Left} {b : BodySocket} (h : b.body = l.state) : l.Moves b l b :=
  ⟨h, [], rfl, Socket.Consumes.refl _⟩

theorem Moves.trans {l l' l'' : Left} {b b' b'' : BodySocket} (h : l.Moves b l' b')
    (h' : l'.Moves b' l'' b'') : l.Moves b l'' b'' := by
  obtain ⟨_, bs, hw, hc⟩ := h
  obtain ⟨hs, cs, hw', hc'⟩ := h'
  exact ⟨hs, bs ++ cs, by rw [hw, hw', List.append_assoc], hc.trans hc'⟩

theorem Moves.at {l l' : Left} {b b' : BodySocket} {rest : Bytes} (h : l.Moves b l' b')
    (hat : l.At b rest) : l'.At b' rest := by
  obtain ⟨hs, bs, hw, hc⟩ := h
  exact ⟨hs, hc.rest_eq (by rw [hat.2, hw, List.append_assoc])⟩

theorem Moves.length_pending_le {l l' : Left} {b b' : BodySocket} (h : l.Moves b l' b') :
    b'.sock.pending.length ≤ b.sock.pending.length := by
  obtain ⟨_, bs, _, hc⟩ := h
  rw [hc.pending_eq, List.length_append]
  omega

/-! ## `has_incoming` -/

/-- Where `has_incoming` goes from a size line. -/
def enter (body : ChunkedBody) : Left :=
  match body.chunks with
  | [] => counted []
  | c :: chunks => within c.data { body with chunks := chunks }

/-- Where `has_incoming` goes. -/
def advance : Left → Left
  | counted data => counted data
  | before body => enter body
  | within data body => if data = [] then enter body else within data body

theorem pieces_enter (body : ChunkedBody) : (enter body).pieces = body.chunks.map Chunk.data := by
  rcases h : body.chunks with _ | ⟨c, cs⟩
  · simp [enter, h, pieces, front, chunks]
  · simp [enter, h, pieces, front, chunks, c.nonempty]

theorem pieces_advance (l : Left) : l.advance.pieces = l.pieces := by
  cases l with
  | counted data => rfl
  | before body => exact pieces_enter body
  | within data body =>
    by_cases hd : data = []
    · rw [advance, if_pos hd, pieces_enter, hd]
      rfl
    · rw [advance, if_neg hd]

theorem front_advance {l : Left} {p : Bytes} {ps : List Bytes} (h : l.pieces = p :: ps) :
    l.advance.front = p := by
  have henter (body : ChunkedBody) (h : body.chunks.map Chunk.data = p :: ps) :
      (enter body).front = p := by
    rcases hb : body.chunks with _ | ⟨c, cs⟩
    · simp [hb] at h
    · rw [hb, List.map_cons] at h
      rw [enter, hb]
      exact (List.cons.inj h).1
  by_cases hf : l.front = []
  · rw [pieces_of_front_nil hf] at h
    cases l with
    | counted data => simp [chunks] at h
    | before body => exact henter body h
    | within data body =>
      rw [advance, if_pos (show data = [] from hf)]
      exact henter body h
  · rw [pieces_of_front_ne_nil hf] at h
    have hstay : l.advance = l := by
      cases l with
      | counted data => rfl
      | before body => exact absurd rfl hf
      | within data body => exact if_neg hf
    rw [hstay]
    exact (List.cons.inj h).1

theorem advance_of_pieces_nil {l : Left} (h : l.pieces = []) : l.advance = counted [] := by
  rw [pieces, List.append_eq_nil_iff] at h
  obtain ⟨hfront, hchunks⟩ := h
  have hfront : l.front = [] := by simpa using hfront
  rw [List.map_eq_nil_iff] at hchunks
  cases l with
  | counted data => rw [advance, show data = [] from hfront]
  | before body => rw [advance, enter, show body.chunks = [] from hchunks]
  | within data body =>
    rw [advance, if_pos (show data = [] from hfront), enter, show body.chunks = [] from hchunks]

/-! ## Taking data from the front -/

/-- The position after `n` bytes of the front. -/
def drop (n : Nat) : Left → Left
  | counted data => counted (data.drop n)
  | before body => before body
  | within data body => within (data.drop n) body

theorem front_drop (n : Nat) (l : Left) : (l.drop n).front = l.front.drop n := by
  cases l <;> simp [drop, front]

theorem chunks_drop (n : Nat) (l : Left) : (l.drop n).chunks = l.chunks := by
  cases l <;> rfl

theorem ended_drop (n : Nat) (l : Left) : (l.drop n).ended = l.ended := by
  cases l <;> rfl

theorem state_drop (n : Nat) (l : Left) :
    (l.drop n).state = { l.state with incoming := l.state.incoming - n } := by
  rw [state, state, front_drop, ended_drop, List.length_drop]

theorem wire_drop (n : Nat) (l : Left) : l.wire = l.front.take n ++ (l.drop n).wire := by
  cases l with
  | counted data => exact (List.take_append_drop n data).symm
  | before body => simp [wire, front, drop]
  | within data body =>
    simp only [wire, front, drop, ← List.append_assoc, List.take_append_drop]

theorem pieces_drop {n : Nat} {l : Left} (hfront : l.front ≠ []) (hn : n ≤ l.front.length) :
    (l.drop n).pieces = l.pieces.dropFlat n := by
  rw [pieces_of_front_ne_nil hfront, List.dropFlat]
  by_cases hlt : n < l.front.length
  · have hne : (l.drop n).front ≠ [] := by
      rw [front_drop, ne_eq, List.drop_eq_nil_iff]
      omega
    rw [if_pos hlt, pieces_of_front_ne_nil hne, front_drop, chunks_drop]
  · have hnil : (l.drop n).front = [] := by
      rw [front_drop, List.drop_eq_nil_iff]
      omega
    have hno : [] ∉ l.chunks.map Chunk.data := fun hm => l.nil_not_mem_pieces (by
      rw [pieces, List.mem_append]
      exact .inr hm)
    rw [if_neg hlt, pieces_of_front_nil hnil, chunks_drop, Nat.sub_eq_zero_of_le hn,
      List.dropFlat_zero hno]

end Left

namespace HttpBody

variable {γ : Type}

theorem run_onSocket {α : Type} {t : Coro Socket Exn α} {b : BodySocket} {s : Socket}
    {o : Outcome Exn α} (h : t.run b.sock = (o, s)) :
    (onSocket t).run b = (o, { b with sock := s }) := Coro.run_focus h

/-- A size line leads into the chunk it announces, or to the end of the body. -/
theorem startChunk_run (body : ChunkedBody) {b : BodySocket} {rest : Bytes}
    (hended : b.body.ended = false) (hp : b.sock.pending = body.afterSize ++ rest) :
    ∃ b', (startChunk ⟨body.firstLine.text, true⟩).run b =
        (.returned (decide ((Left.before body).pieces ≠ [])), b') ∧
      b'.body = (Left.enter body).state ∧
      ∃ bs, body.afterSize = bs ++ (Left.enter body).wire ∧ b.sock.Consumes bs b'.sock := by
  have hvalue : (HttpLine.hasValue ⟨body.firstLine.text, true⟩) = true := by
    simp [HttpLine.hasValue, body.firstLine.text_ne_nil]
  rw [startChunk, hvalue, Bool.not_true, if_neg Bool.false_ne_true, body.firstLine.fromChars_text]
  rcases hc : body.chunks with _ | ⟨c, chunks⟩
  · -- the last chunk, then the empty line
    have hsize : body.firstLine.size = 0 := by
      rw [ChunkedBody.firstLine, hc]
      exact body.last.size_eq
    have hafter : body.afterSize = [cr, lf] := by rw [ChunkedBody.afterSize, hc]
    let b₀ : BodySocket := { b with body := { incoming := 0, ended := true } }
    obtain ⟨s', hrun, hcons⟩ := readHttpLine_crlf [] rest (s := b₀.sock) (by simp)
      (by rw [show b₀.sock = b.sock from rfl, hp, hafter]; rfl)
    refine ⟨⟨⟨0, true⟩, s'⟩, ?_, ?_, [cr, lf], ?_, hcons⟩
    · rw [hsize]
      show (Coro.modify _ >>= fun _ => onSocket readHttpLine >>= fun _ => pure false).run b = _
      rw [Coro.run_modify_bind, Coro.bind_returned _ (run_onSocket (b := b₀) hrun), Coro.run_pure]
      simp [Left.pieces, Left.front, Left.chunks, hc, b₀]
    · rw [Left.enter, hc]
      rfl
    · rw [hafter, Left.enter, hc]
      rfl
  · have hsize : body.firstLine.size = c.data.length := by
      rw [ChunkedBody.firstLine, hc]
      exact c.size_eq
    have hafter : body.afterSize = (Left.enter body).wire := by
      rw [ChunkedBody.afterSize, Left.enter, hc]
      rfl
    obtain ⟨n, hn⟩ := Nat.exists_eq_succ_of_ne_zero (List.length_pos_iff.mpr c.nonempty).ne'
    refine ⟨{ b with body := { b.body with incoming := c.data.length } }, ?_, ?_, [], hafter,
      Socket.Consumes.refl _⟩
    · rw [hsize, hn]
      show (Coro.modify _ >>= fun _ => pure true).run b = _
      rw [Coro.run_modify_bind, Coro.run_pure]
      simp [Left.pieces, Left.front, Left.chunks, hc]
    · rw [Left.enter, hc]
      simp [Left.state, Left.front, Left.ended, hended]

/-- `has_incoming` tells whether data is left, and moves to where it begins. -/
theorem hasIncoming_run {l : Left} {b : BodySocket} {rest : Bytes} (h : l.At b rest) :
    ∃ b', hasIncoming.run b = (.returned (decide (l.pieces ≠ [])), b') ∧
      l.Moves b l.advance b' := by
  obtain ⟨hbody, hp⟩ := h
  -- reading the first size line of a chunked body, from a state that knows of no data
  have henter (body : ChunkedBody) (b : BodySocket) (hended : b.body.ended = false)
      (hp : b.sock.pending = body.wire ++ rest) : ∃ s' b',
      readHttpLine.run b.sock = (.returned ⟨body.firstLine.text, true⟩, s') ∧
      (startChunk ⟨body.firstLine.text, true⟩).run { b with sock := s' } =
        (.returned (decide ((Left.before body).pieces ≠ [])), b') ∧
      (Left.before body).Moves b (Left.enter body) b' := by
    rw [body.wire_eq, List.append_assoc] at hp
    obtain ⟨s', hrun, hc⟩ := readHttpLine_crlf _ _ body.firstLine.lf_not_mem_text hp
    obtain ⟨b', hrun', hbody', bs, hbs, hc'⟩ := startChunk_run body (b := { b with sock := s' })
      hended (hc.rest_eq hp)
    refine ⟨s', b', hrun, hrun', hbody', body.firstLine.text ++ [cr, lf] ++ bs, ?_, hc.trans hc'⟩
    rw [Left.wire, body.wire_eq, hbs, ← List.append_assoc]
  have hnotLast (line : SizeLine) : (HttpLine.isLastLine ⟨line.text, true⟩) = false := by
    simp [HttpLine.isLastLine, line.text_ne_nil]
  rw [hasIncoming, Coro.run_get_bind, hbody]
  cases l with
  | counted data =>
    refine ⟨b, ?_, Left.Moves.refl hbody⟩
    rw [if_pos (.inr rfl), Coro.run_pure]
    simp [Left.state, Left.pieces, Left.front, Left.chunks, List.length_pos_iff]
  | before body =>
    obtain ⟨s', b', hline, hchunk, hmoves⟩ := henter body b (by rw [hbody]; rfl) hp
    refine ⟨b', ?_, hmoves⟩
    rw [if_neg (by simp [Left.state, Left.front, Left.ended]),
      Coro.bind_returned _ (run_onSocket hline), hnotLast,
      if_neg Bool.false_ne_true, hchunk]
  | within data body =>
    by_cases hd : data = []
    · -- the line end of the chunk that has been read, then a size line
      subst hd
      obtain ⟨s₁, hline₁, hc₁⟩ := readHttpLine_crlf [] (body.wire ++ rest) (s := b.sock)
        (by simp) (by rw [hp]; simp [Left.wire])
      obtain ⟨s', b', hline, hchunk, hstate, bs, hbs, hc⟩ := henter body { b with sock := s₁ }
        (by rw [hbody]; rfl) (hc₁.rest_eq (by rw [hp]; simp [Left.wire]))
      refine ⟨b', ?_, ?_⟩
      · rw [if_neg (by simp [Left.state, Left.front, Left.ended]),
          Coro.bind_returned _ (run_onSocket hline₁)]
        rw [if_pos (by rfl), Coro.bind_returned _ (run_onSocket hline), hchunk]
        rfl
      · rw [Left.advance, if_pos rfl]
        refine ⟨hstate, [cr, lf] ++ bs, ?_, hc₁.trans hc⟩
        rw [List.append_assoc, ← hbs]
        rfl
    · refine ⟨b, ?_, by rw [Left.advance, if_neg hd]; exact Left.Moves.refl hbody⟩
      have hpos := List.length_pos_iff.mpr hd
      rw [if_pos (.inl hpos), Coro.run_pure]
      simp [Left.state, Left.pieces, Left.front, hd, hpos]

/-! ## The reads and `skip` -/

/-- `op` takes the bytes it is asked for from the socket and adds them to what it had. -/
def Delivers (op : γ → Nat → Coro Socket Exn γ) (f : γ → Bytes → γ) : Prop :=
  ∀ acc s bs rest, s.pending = bs ++ rest →
    ∃ s', (op acc bs.length).run s = (.returned (f acc bs), s') ∧ s.Consumes bs s'

variable {op : γ → Nat → Coro Socket Exn γ} {f : γ → Bytes → γ}

/-- One round takes from the first piece what is left to take of it. -/
theorem transferRound_run (hop : Delivers op f) (acc : γ) {size : Int} {total : Nat} {l : Left}
    {b : BodySocket} {rest p : Bytes} {ps : List Bytes} (h : l.At b rest)
    (hsize : (total : Int) < size) (hpieces : l.pieces = p :: ps) :
    ∃ l' b', (transferRound op size (acc, total)).run b =
        (.returned (.inl (f acc (p.take (size.toNat - total)),
          total + min (size.toNat - total) p.length)), b') ∧
      l.Moves b l' b' ∧ l'.pieces = (p :: ps).dropFlat (min (size.toNat - total) p.length) ∧
      b'.sock.pending.length < b.sock.pending.length := by
  have hp : p ≠ [] := fun hp => l.nil_not_mem_pieces (by rw [hpieces, hp]; exact List.mem_cons_self)
  obtain ⟨b₁, hrun₁, hmoves₁⟩ := hasIncoming_run h
  have hat₁ := hmoves₁.at h
  have hfront : l.advance.front = p := Left.front_advance hpieces
  have hincoming : b₁.body.incoming = p.length := by
    rw [hat₁.1, Left.state, hfront]
  have hn : min (size - total).toNat b₁.body.incoming = min (size.toNat - total) p.length := by
    rw [hincoming]
    omega
  obtain ⟨s₂, hrun₂, hc₂⟩ := hop acc b₁.sock (p.take (size.toNat - total))
    ((l.advance.drop (min (size.toNat - total) p.length)).wire ++ rest) (by
      rw [hat₁.2, l.advance.wire_drop (min (size.toNat - total) p.length), hfront,
        List.append_assoc, ← List.take_eq_take_min])
  have hlen : (p.take (size.toNat - total)).length = min (size.toNat - total) p.length :=
    List.length_take
  refine ⟨l.advance.drop (min (size.toNat - total) p.length),
    ⟨{ b₁.body with incoming := b₁.body.incoming - min (size.toNat - total) p.length }, s₂⟩,
    ?_, hmoves₁.trans ⟨?_, _, l.advance.wire_drop _, ?_⟩, ?_, ?_⟩
  · have hmore : decide (l.pieces ≠ []) = true := by simp [hpieces]
    rw [transferRound, transferRoundOf, if_pos hsize, Coro.bind_returned _ hrun₁, hmore, if_pos rfl,
      Coro.run_get_bind]
    simp only [hn]
    rw [← hlen, Coro.bind_returned _ (run_onSocket hrun₂), Coro.run_modify_bind, Coro.run_pure]
  · rw [Left.state_drop, ← hat₁.1]
  · rw [hfront, ← List.take_eq_take_min]
    exact hc₂
  · rw [Left.pieces_drop (by rwa [hfront]) (by rw [hfront]; omega), Left.pieces_advance, hpieces]
  · have h₁ := hmoves₁.length_pending_le
    have h₂ := congrArg List.length hc₂.pending_eq
    have hpos := List.length_pos_iff.mpr hp
    rw [List.length_append] at h₂
    show s₂.pending.length < b.sock.pending.length
    omega

/-- The loop of the reads and `skip` delivers the next `size` bytes of data, piece by piece, or all
that is left if that is less. -/
theorem transfer_run (hop : Delivers op f) (size : Int) (init : γ) {l : Left} {b : BodySocket}
    {rest : Bytes} (h : l.At b rest) :
    ∃ l' b', (transfer op size init).run b =
        (.returned ((l.pieces.takeFlat size.toNat).foldl f init,
          min size.toNat l.data.length), b') ∧
      l.Moves b l' b' ∧ l'.pieces = l.pieces.dropFlat size.toNat := by
  -- what the rounds so far delivered and what the rest of the loop will deliver make up the whole
  let inv (acc : γ × Nat) (b' : BodySocket) : Prop := ∃ l' : Left, l.Moves b l' b' ∧
    (l'.pieces.takeFlat (size.toNat - acc.2)).foldl f acc.1 =
      (l.pieces.takeFlat size.toNat).foldl f init ∧
    acc.2 + min (size.toNat - acc.2) l'.data.length = min size.toNat l.data.length ∧
    l'.pieces.dropFlat (size.toNat - acc.2) = l.pieces.dropFlat size.toNat
  obtain ⟨acc, b', hrun, l', hmoves, hvalue, htotal, hpieces⟩ := Coro.loop_returns
    (fun b => b.sock.pending.length + 1) (transferRound op size) inv
    (fun acc b' => ∃ l' : Left, l.Moves b l' b' ∧
      acc.1 = (l.pieces.takeFlat size.toNat).foldl f init ∧
      acc.2 = min size.toNat l.data.length ∧
      l'.pieces = l.pieces.dropFlat size.toNat)
    (fun _ b' => b'.sock.pending.length) (init, 0) b ⟨l, Left.Moves.refl h.1, by simp, by simp, by simp⟩
    (Nat.lt_succ_self _) (fun ⟨acc, total⟩ b₁ ⟨l₁, hmoves₁, hvalue₁, htotal₁, hpieces₁⟩ => by
      have hat₁ := hmoves₁.at h
      simp only at hvalue₁ htotal₁ hpieces₁
      by_cases hsize : (total : Int) < size
      · rcases hp : l₁.pieces with _ | ⟨p, ps⟩
        · -- the body has ended
          obtain ⟨b₂, hrun₂, hmoves₂⟩ := hasIncoming_run hat₁
          refine .inr ⟨(acc, total), b₂, ?_, l₁.advance, hmoves₁.trans hmoves₂, ?_, ?_, ?_⟩
          · have hnone : decide (l₁.pieces ≠ []) = false := by simp [hp]
            rw [transferRound, transferRoundOf, if_pos hsize, Coro.bind_returned _ hrun₂, hnone,
              if_neg Bool.false_ne_true, Coro.run_pure]
          · rw [← hvalue₁, hp]
            rfl
          · rw [← htotal₁, Left.data, hp, List.flatten_nil, List.length_nil, Nat.min_zero]
            rfl
          · rw [Left.pieces_advance, ← hpieces₁, hp]
            rfl
        · obtain ⟨l₂, b₂, hrun₂, hmoves₂, hpieces₂, hlt⟩ := transferRound_run hop acc hat₁
            hsize hp
          have hno : [] ∉ p :: ps := hp ▸ l₁.nil_not_mem_pieces
          have hleft : size.toNat - (total + min (size.toNat - total) p.length) =
              size.toNat - total - min (size.toNat - total) p.length := by omega
          refine .inl ⟨_, b₂, hrun₂, ⟨l₂, hmoves₁.trans hmoves₂, ?_, ?_, ?_⟩, hlt⟩
          · rw [← hvalue₁, hp, List.takeFlat_cons (by omega) hno, hpieces₂, hleft]
            rfl
          · have hdata : l₂.data.length =
                l₁.data.length - min (size.toNat - total) p.length := by
              rw [Left.data, hpieces₂, List.flatten_dropFlat, List.length_drop, Left.data, hp]
            have hle : p.length ≤ l₁.data.length := by
              rw [Left.data, hp, List.flatten_cons, List.length_append]
              omega
            simp only [hdata]
            omega
          · rw [← hpieces₁, hp, List.dropFlat_cons hno, hpieces₂, hleft]
      · have hzero : size.toNat - total = 0 := by omega
        refine .inr ⟨(acc, total), b₁, ?_, l₁, hmoves₁, ?_, ?_, ?_⟩
        · rw [transferRound, transferRoundOf, if_neg hsize, Coro.run_pure]
        · rw [← hvalue₁, hzero, List.takeFlat_zero]
          rfl
        · rw [← htotal₁, hzero, Nat.zero_min]
          rfl
        · rw [← hpieces₁, hzero, List.dropFlat_zero l₁.nil_not_mem_pieces])
  exact ⟨l', b', hrun.trans (by rw [← hvalue, ← htotal]), hmoves, hpieces⟩

theorem delivers_read : Delivers (fun got n => do
    let bs ← Socket.read n true
    pure (got ++ bs)) (· ++ ·) := by
  intro got s bs rest hp
  obtain ⟨s', hrun, hc⟩ := Socket.read_run true hp
  exact ⟨s', by rw [Coro.bind_returned _ hrun, Coro.run_pure], hc⟩

theorem delivers_skip : Delivers (fun (u : Unit) n => do
    let _ ← Socket.skip n true
    pure u) (fun u _ => u) := by
  intro u s bs rest hp
  obtain ⟨s', hrun, hc⟩ := Socket.skip_run true hp
  exact ⟨s', by rw [Coro.bind_returned _ hrun, Coro.run_pure], hc⟩

theorem read_run (size : Int) {l : Left} {b : BodySocket} {rest : Bytes} (h : l.At b rest) :
    ∃ l' b', (read size).run b =
        (.returned (l.data.take size.toNat, min size.toNat l.data.length), b') ∧
      l.Moves b l' b' ∧ l'.pieces = l.pieces.dropFlat size.toNat := by
  obtain ⟨l', b', hrun, hmoves, hpieces⟩ := transfer_run delivers_read size [] h
  rw [List.foldl_append_nil, List.flatten_takeFlat] at hrun
  exact ⟨l', b', hrun, hmoves, hpieces⟩

theorem readInto_run (dest : Bytes) (size : Int) {l : Left} {b : BodySocket} {rest : Bytes}
    (h : l.At b rest) :
    ∃ l' b', (readInto dest size).run b =
        (.returned ((l.pieces.takeFlat size.toNat).foldl storeAt dest,
          min size.toNat l.data.length), b') ∧
      l.Moves b l' b' ∧ l'.pieces = l.pieces.dropFlat size.toNat := by
  have hop : Delivers (fun dest n => do
      let bs ← Socket.readInto n true
      pure (storeAt dest bs)) storeAt := fun dest s bs rest hp => by
    obtain ⟨s', hrun, hc⟩ := Socket.readInto_run true hp
    exact ⟨s', by rw [Coro.bind_returned _ hrun, Coro.run_pure], hc⟩
  exact transfer_run hop size dest h

theorem skip_run (size : Int) {l : Left} {b : BodySocket} {rest : Bytes} (h : l.At b rest) :
    ∃ l' b', (skip size).run b = (.returned (min size.toNat l.data.length), b') ∧
      l.Moves b l' b' ∧ l'.pieces = l.pieces.dropFlat size.toNat := by
  obtain ⟨l', b', hrun, hmoves, hpieces⟩ := transfer_run delivers_skip size () h
  exact ⟨l', b', by rw [skip, Coro.bind_returned _ hrun]; rfl, hmoves, hpieces⟩

end HttpBody

end CppEvent
