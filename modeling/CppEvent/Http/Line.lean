import CppEvent.Net.Ending

/-!
# Reading a line

`http_line.cpp`. A line is read for its value whatever packets its bytes come in
(`readHttpLine_run`), and a stream without a line is read to its end (`readHttpLine_exact`).
-/

namespace CppEvent

open Coroutine

structure HttpLine where
  val : Bytes
  received : Bool
  deriving DecidableEq, Repr

namespace HttpLine

def hasValue (l : HttpLine) : Bool := l.received && !l.val.isEmpty

def isLastLine (l : HttpLine) : Bool := l.received && l.val.isEmpty

end HttpLine

/-- The inner loop of `read_http_line`: the bytes of a chunk up to and with its first line feed, and
whether there is one. -/
def takeLine : Bytes → Bytes × Bool
  | [] => ([], false)
  | c :: cs => if c = lf then ([c], true) else (c :: (takeLine cs).1, (takeLine cs).2)

/-- One round of `read_http_line`; the loop ends with the bytes read and `line_ended`. -/
def lineRound (line : Bytes) : Coro Socket Exn (Bytes ⊕ Bytes × Bool) := do
  let chunk ← Socket.peek
  if chunk = [] then pure (.inr (line, false))
  else do
    Socket.seek (takeLine chunk).1.length
    if (takeLine chunk).2 then pure (.inr (line ++ (takeLine chunk).1, true))
    else pure (.inl (line ++ (takeLine chunk).1))

/-- `line.pop_back(); if (line.ends_with('\r')) line.pop_back();` -/
def stripLineEnd (line : Bytes) : Bytes :=
  if line.dropLast.getLast? = some cr then line.dropLast.dropLast else line.dropLast

def readHttpLine : Coro Socket Exn HttpLine := do
  let (line, lineEnded) ← Coro.loop (fun s => s.pending.length + 1) lineRound []
  pure { val := if lineEnded then stripLineEnd line else line, received := lineEnded }

theorem takeLine_of_not_mem {cs : Bytes} (h : lf ∉ cs) : takeLine cs = (cs, false) := by
  induction cs with
  | nil => rfl
  | cons c cs ih =>
    rw [List.mem_cons, not_or] at h
    rw [takeLine, if_neg (Ne.symm h.1), ih h.2]

theorem takeLine_append {cs rest : Bytes} (h : lf ∉ cs) :
    takeLine (cs ++ lf :: rest) = (cs ++ [lf], true) := by
  induction cs with
  | nil => rw [List.nil_append, takeLine, if_pos rfl]; rfl
  | cons c cs ih =>
    rw [List.mem_cons, not_or] at h
    rw [List.cons_append, takeLine, if_neg (Ne.symm h.1), ih h.2]
    rfl

/-- A line feed in what is to come ends the line. -/
theorem readHttpLine_run (line rest : Bytes) {s : Socket} (hline : lf ∉ line)
    (h : s.pending = line ++ lf :: rest) :
    ∃ s', readHttpLine.run s = (.returned ⟨stripLineEnd (line ++ [lf]), true⟩, s') ∧
      s.Consumes (line ++ [lf]) s' := by
  -- between rounds a part of the line before the line feed has been read
  obtain ⟨⟨text, ended⟩, s', hloop, ⟨htext, hended⟩, hc⟩ := Coro.loop_returns
    (fun s : Socket => s.pending.length + 1) lineRound
    (fun got s' => s.Consumes got s' ∧ ∃ more, line = got ++ more)
    (fun p s' => (p.1 = line ++ [lf] ∧ p.2 = true) ∧ s.Consumes (line ++ [lf]) s')
    (fun _ s' => s'.pending.length) [] s ⟨Socket.Consumes.refl s, line, rfl⟩ (Nat.lt_succ_self _)
    (fun got s₁ ⟨hc, more, hmore⟩ => by
      have hp : s₁.pending = more ++ lf :: rest :=
        hc.rest_eq (by rw [h, hmore, List.append_assoc])
      have hlf : lf ∉ more := fun hm => hline (by simp [hmore, hm])
      obtain ⟨s₂, hpeek, hne, hc₂⟩ := Socket.peek_run (s := s₁) (by simp [hp])
      have hp₂ : s₂.input.buffer.unread ++ Input.carried s₂.input.recvs = more ++ lf :: rest :=
        hc₂.rest_eq (by rw [hp, List.nil_append])
      rcases List.prefix_or_of_append_eq_append_cons hp₂ with ⟨t, ht⟩ | ⟨t, ht⟩
      · -- the chunk ends before the line feed
        have htake : takeLine s₂.input.buffer.unread = (s₂.input.buffer.unread, false) :=
          takeLine_of_not_mem fun hm => hlf (by simp [ht, hm])
        obtain ⟨s₃, hseek, hc₃⟩ := Socket.seek_run s₂.input.buffer.unread [] (List.append_nil _).symm
        refine .inl ⟨got ++ s₂.input.buffer.unread, s₃, ?_, ⟨?_, t, ?_⟩, ?_⟩
        · rw [lineRound, Coro.bind_returned _ hpeek, if_neg hne, htake,
            Coro.bind_returned _ hseek]
          rfl
        · exact hc.trans (hc₂.trans hc₃)
        · rw [hmore, ht, List.append_assoc]
        · have hlen := congrArg List.length (hc₂.trans hc₃).pending_eq
          have hpos := List.length_pos_iff.mpr hne
          simp only [List.nil_append, List.length_append] at hlen
          omega
      · -- the chunk holds the line feed
        have htake : takeLine s₂.input.buffer.unread = (more ++ [lf], true) := by
          rw [ht, takeLine_append hlf]
        obtain ⟨s₃, hseek, hc₃⟩ := Socket.seek_run (more ++ [lf]) t (ht.trans (by simp))
        refine .inr ⟨(got ++ (more ++ [lf]), true), s₃, ?_, ⟨?_, rfl⟩, ?_⟩
        · rw [lineRound, Coro.bind_returned _ hpeek, if_neg hne, htake,
            Coro.bind_returned _ hseek]
          rfl
        · rw [hmore, List.append_assoc]
        · rw [hmore, List.append_assoc]
          exact hc.trans (hc₂.trans hc₃))
  obtain rfl : text = line ++ [lf] := htext
  obtain rfl : ended = true := hended
  refine ⟨s', ?_, hc⟩
  rw [readHttpLine, Coro.bind_returned _ hloop]
  rfl

theorem stripLineEnd_crlf (text : Bytes) : stripLineEnd (text ++ [cr] ++ [lf]) = text := by
  rw [stripLineEnd, List.dropLast_concat, List.getLast?_concat, if_pos rfl, List.dropLast_concat]

theorem readHttpLine_crlf (text rest : Bytes) {s : Socket} (htext : lf ∉ text)
    (h : s.pending = text ++ [cr, lf] ++ rest) :
    ∃ s', readHttpLine.run s = (.returned ⟨text, true⟩, s') ∧
      s.Consumes (text ++ [cr, lf]) s' := by
  have hline : lf ∉ text ++ [cr] := by simp [htext, lf, cr]
  obtain ⟨s', hrun, hc⟩ := readHttpLine_run (text ++ [cr]) rest hline (h.trans (by simp))
  rw [stripLineEnd_crlf] at hrun
  exact ⟨s', hrun, by simpa using hc⟩

theorem readHttpLine_eof {s s' : Socket} {l : HttpLine} (h : s.pending = [])
    (hrun : readHttpLine.run s = (.returned l, s')) : l = ⟨[], false⟩ := by
  obtain ⟨⟨line, ended⟩, s₁, hloop, hlast⟩ := Coro.returned_of_bind hrun
  have hiterate : (Coro.iterate lineRound 1 []).run s = (.returned (line, ended), s₁) := by
    rwa [Coro.run_loop, h] at hloop
  obtain ⟨round, s₂, hround, hrest⟩ := Coro.returned_of_bind hiterate
  obtain ⟨chunk, s₃, hpeek, hchunk⟩ := Coro.returned_of_bind hround
  rw [Socket.peek_eof h hpeek, if_pos rfl] at hchunk
  obtain rfl : Sum.inr ([], false) = round := by simpa using (Prod.mk.inj hchunk).1
  obtain ⟨rfl, rfl⟩ : [] = line ∧ false = ended := by simpa using (Prod.mk.inj hrest).1
  simpa using (Prod.mk.inj hlast).1.symm

/-! ## Lines that may not end -/

/-- The value of the line at the front of a stream and what follows it, if the line ends. -/
def cutLine (stream : Bytes) : Option (Bytes × Bytes) :=
  match takeLine stream with
  | (text, true) => some (stripLineEnd text, stream.drop text.length)
  | (_, false) => none

theorem cutLine_append {line : Bytes} (hline : lf ∉ line) (rest : Bytes) :
    cutLine (line ++ lf :: rest) = some (stripLineEnd (line ++ [lf]), rest) := by
  have hdrop : (line ++ lf :: rest).drop (line ++ [lf]).length = rest := by
    rw [List.append_cons line lf rest, List.drop_left]
  rw [cutLine, takeLine_append hline]
  exact congrArg (fun rest => some (_, rest)) hdrop

theorem cutLine_of_not_mem {stream : Bytes} (h : lf ∉ stream) : cutLine stream = none := by
  rw [cutLine, takeLine_of_not_mem h]

theorem cutLine_eq_some {stream val rest : Bytes} (h : cutLine stream = some (val, rest)) :
    ∃ line, lf ∉ line ∧ stream = line ++ lf :: rest ∧ val = stripLineEnd (line ++ [lf]) := by
  by_cases hmem : lf ∈ stream
  · obtain ⟨line, rest', rfl, hline⟩ := List.eq_append_cons_of_mem hmem
    rw [cutLine_append hline] at h
    obtain ⟨rfl, rfl⟩ := Prod.mk.inj (Option.some.inj h)
    exact ⟨line, hline, rfl, rfl⟩
  · rw [cutLine_of_not_mem hmem] at h
    cases h

theorem length_lt_of_cutLine {stream val rest : Bytes} (h : cutLine stream = some (val, rest)) :
    rest.length < stream.length := by
  obtain ⟨line, -, rfl, -⟩ := cutLine_eq_some h
  rw [List.length_append, List.length_cons]
  omega

variable {closes : Bool}

theorem readHttpLine_unended {s : Socket} (hends : Input.EndsIn closes s.input.recvs)
    (hline : lf ∉ s.pending) :
    (closes = true ∧ ∃ s', readHttpLine.run s = (.returned ⟨s.pending, false⟩, s') ∧
        s.Consumes s.pending s') ∨
      ∃ s', readHttpLine.run s = (.suspended, s') ∧ closes = false := by
  -- between rounds a part of what is to come has been read
  obtain ⟨o, s', hloop, hpost⟩ := Coro.loop_leaves (fun s : Socket => s.pending.length + 1)
    lineRound
    (fun got s' => s.Consumes got s')
    (fun o s' => (closes = true ∧ o = .returned (s.pending, false) ∧ s.Consumes s.pending s') ∨
      o = .suspended ∧ closes = false)
    (fun _ s' => s'.pending.length) [] s (Socket.Consumes.refl s) (Nat.lt_succ_self _)
    (fun got s₁ hc => by
      have hends₁ := hc.1.endsIn hends
      by_cases hnil : s₁.pending = []
      · have hgot : s.pending = got := by rw [hc.pending_eq, hnil, List.append_nil]
        rcases Input.peek_ends hends₁ hnil with ⟨hclosed, i, hpeek, hc₂⟩ | ⟨i, hpeek, hopen⟩
        · obtain ⟨s₂, hpeek₂, -, hcons₂⟩ := Socket.run_onInput hpeek hc₂
          have hround : (lineRound got).run s₁ = (.returned (.inr (got, false)), s₂) :=
            Coro.bind_returned _ hpeek₂
          refine .inr ⟨_, s₂, _, hround, rfl, .inl ⟨hclosed, by rw [hgot], ?_⟩⟩
          have := hc.trans hcons₂
          rwa [List.append_nil, ← hgot] at this
        · have hpeek₂ : Socket.peek.run s₁ = (.suspended, { s₁ with input := i }) :=
            by rw [Socket.peek, Socket.onInput, Coro.run_focus hpeek]
          exact .inr ⟨_, _, _, Coro.bind_suspended _ hpeek₂, rfl, .inr ⟨rfl, hopen⟩⟩
      · obtain ⟨s₂, hpeek, hne, hc₂⟩ := Socket.peek_run hnil
        have hlf : lf ∉ s₂.input.buffer.unread := fun hm => hline (by
          rw [(hc.trans hc₂).pending_eq, Socket.pending, Input.pending]
          simp [hm])
        obtain ⟨s₃, hseek, hc₃⟩ := Socket.seek_run s₂.input.buffer.unread []
          (List.append_nil _).symm
        refine .inl ⟨_, s₃, ?_, hc.trans (hc₂.trans hc₃), ?_⟩
        · rw [lineRound, Coro.bind_returned _ hpeek, if_neg hne, takeLine_of_not_mem hlf,
            Coro.bind_returned _ hseek]
          rfl
        · have hlen := congrArg List.length (hc₂.trans hc₃).pending_eq
          have hpos := List.length_pos_iff.mpr hne
          rw [List.nil_append, List.length_append] at hlen
          omega)
  rcases hpost with ⟨hclosed, rfl, hc⟩ | ⟨rfl, hopen⟩
  · exact .inl ⟨hclosed, s', by rw [readHttpLine, Coro.bind_returned _ hloop]; rfl, hc⟩
  · exact .inr ⟨s', by rw [readHttpLine, Coro.bind_suspended _ hloop], hopen⟩

theorem readHttpLine_leaves {s : Socket} (hends : Input.EndsIn closes s.input.recvs) :
    (∃ val rest s', cutLine s.pending = some (val, rest) ∧
        readHttpLine.run s = (.returned ⟨val, true⟩, s') ∧ s'.pending = rest ∧
        Input.EndsIn closes s'.input.recvs) ∨
      cutLine s.pending = none ∧
        ((closes = true ∧ ∃ s', readHttpLine.run s = (.returned ⟨s.pending, false⟩, s') ∧
            s'.pending = [] ∧ Input.EndsIn closes s'.input.recvs) ∨
          ∃ s', readHttpLine.run s = (.suspended, s') ∧ closes = false) := by
  by_cases hmem : lf ∈ s.pending
  · obtain ⟨line, rest, hp, hline⟩ := List.eq_append_cons_of_mem hmem
    obtain ⟨s', hrun, hc⟩ := readHttpLine_run line rest hline hp
    refine .inl ⟨_, rest, s', by rw [hp, cutLine_append hline], hrun, ?_, hc.1.endsIn hends⟩
    exact hc.rest_eq (by rw [hp, List.append_assoc]; rfl)
  · refine .inr ⟨cutLine_of_not_mem hmem, ?_⟩
    rcases readHttpLine_unended hends hmem with ⟨hclosed, s', hrun, hc⟩ | hopen
    · exact .inl ⟨hclosed, s', hrun, hc.rest_eq (List.append_nil _).symm, hc.1.endsIn hends⟩
    · exact .inr hopen

/-- The value of a line: the line itself, less a CR at its end. -/
def IsLineValue (line val : Bytes) : Prop :=
  line = val ++ [cr] ∨ line = val ∧ val.getLast? ≠ some cr

theorem isLineValue_stripLineEnd (line : Bytes) : IsLineValue line (stripLineEnd (line ++ [lf])) := by
  rw [stripLineEnd, List.dropLast_concat]
  by_cases hlast : line.getLast? = some cr
  · rw [if_pos hlast]
    exact .inl (List.dropLast_append_getLast? cr hlast).symm
  · rw [if_neg hlast]
    exact .inr ⟨rfl, hlast⟩

/-- Where a line ends or the stream does, `read_http_line` returns whatever the packets are. It has
received a line exactly if there is a line feed: then it has the value of the bytes before the first
one and stands behind it. Otherwise it has taken everything, and what it returns is neither a line
with a value nor the last one. -/
theorem readHttpLine_exact {s : Socket} (h : lf ∈ s.pending ∨ Input.EndsIn true s.input.recvs) :
    ∃ l s', readHttpLine.run s = (.returned l, s') ∧ (l.received = true ↔ lf ∈ s.pending) ∧
      (∀ line rest, lf ∉ line → s.pending = line ++ lf :: rest →
        IsLineValue line l.val ∧ s.Consumes (line ++ [lf]) s' ∧ s'.pending = rest) ∧
      (lf ∉ s.pending → s.Consumes s.pending s' ∧ s'.pending = [] ∧ l.hasValue = false ∧
        l.isLastLine = false) := by
  by_cases hmem : lf ∈ s.pending
  · obtain ⟨line, rest, hp, hline⟩ := List.eq_append_cons_of_mem hmem
    obtain ⟨s', hrun, hc⟩ := readHttpLine_run line rest hline hp
    refine ⟨_, s', hrun, iff_of_true rfl hmem, fun line' rest' hline' hp' => ?_,
      fun hnot => absurd hmem hnot⟩
    -- there is only one first line feed
    rw [hp] at hp'
    have hfirst := congrArg takeLine hp'
    rw [takeLine_append hline, takeLine_append hline'] at hfirst
    obtain rfl := List.append_cancel_right (Prod.mk.inj hfirst).1
    obtain rfl := (List.cons.inj (List.append_cancel_left hp')).2
    exact ⟨isLineValue_stripLineEnd line, hc, hc.rest_eq (by rw [hp, List.append_cons])⟩
  · rcases readHttpLine_unended (h.resolve_left hmem) hmem with ⟨-, s', hrun, hc⟩ | ⟨_, _, hopen⟩
    · refine ⟨_, s', hrun, iff_of_false Bool.false_ne_true hmem, fun line rest _ hp => ?_,
        fun _ => ⟨hc, hc.rest_eq (List.append_nil _).symm, rfl, rfl⟩⟩
      exact absurd (by simp [hp]) hmem
    · cases hopen

/-- The packets end between CR and LF. -/
def splitLine : Socket :=
  Socket.new [.data ⟨[97, cr], by decide, by decide⟩, .data ⟨[lf, 98], by decide, by decide⟩, .closed]
    fun _ => .stalled

theorem readHttpLine_exact_split : ∃ l s', readHttpLine.run splitLine = (.returned l, s') ∧
    IsLineValue [97, cr] l.val ∧ s'.pending = [98] := by
  have hmem : lf ∈ splitLine.pending := by decide
  obtain ⟨l, s', hrun, -, hline, -⟩ := readHttpLine_exact (.inl hmem)
  obtain ⟨hval, -, hrest⟩ := hline [97, cr] [98] (by decide) (by decide)
  exact ⟨l, s', hrun, hval, hrest⟩

end CppEvent
