import CppEvent.Http.Decoding

/-!
# Draining a chunked body

What an endpoint gets that reads or skips until `has_incoming` says that there is no more, whatever
the bytes on the socket are and whatever packets they come in. `Drains` says it of the bytes alone,
and `drain_leaves` that the code does it.
-/

namespace CppEvent

open Coroutine

variable {closes : Bool}

/-! ## What is drained -/

/-- The size line that `has_incoming` takes: the next line, or the one behind an empty line. -/
def sizeLine (stream : Bytes) : Option (Bytes × Bytes) :=
  match cutLine stream with
  | some ([], rest) => cutLine rest
  | cut => cut

def chunkSize (val : Bytes) : Option Nat :=
  match fromChars 16 val with
  | .ok (.ofNat n) _ => some n
  | _ => none

/-- The size of the chunk that a stream begins with, and what follows its size line. -/
def announced (stream : Bytes) : Option (Nat × Bytes) :=
  (sizeLine stream).bind fun (val, rest) => (chunkSize val).map fun n => (n, rest)

theorem sizeLine_of_empty {stream rest : Bytes} (h : cutLine stream = some ([], rest)) :
    sizeLine stream = cutLine rest := by
  rw [sizeLine, h]

theorem sizeLine_of_ne {stream val rest : Bytes} (h : cutLine stream = some (val, rest))
    (hval : val ≠ []) : sizeLine stream = some (val, rest) := by
  obtain ⟨c, cs, rfl⟩ := List.exists_cons_of_ne_nil hval
  rw [sizeLine, h]

theorem sizeLine_of_none {stream : Bytes} (h : cutLine stream = none) : sizeLine stream = none := by
  rw [sizeLine, h]

theorem announced_of_sizeLine {stream val rest : Bytes} (h : sizeLine stream = some (val, rest)) :
    announced stream = (chunkSize val).map fun n => (n, rest) := by
  rw [announced, h, Option.bind_some]

theorem announced_of_none {stream : Bytes} (h : sizeLine stream = none) :
    announced stream = none := by
  rw [announced, h, Option.bind_none]

/-- What follows the line behind the last size line, which `has_incoming` reads without looking at
it; the peer's close ends it too. -/
def afterLast (closes : Bool) (stream : Bytes) : Option Bytes :=
  match cutLine stream with
  | some (_, rest) => some rest
  | none => if closes then some [] else none

/-- The data that is drained from a stream, and what is left of the stream. -/
inductive Drains (closes : Bool) : Bytes → Bytes → Bytes → Prop
  | last {stream rest left : Bytes} (hsize : announced stream = some (0, rest))
      (hend : afterLast closes rest = some left) : Drains closes stream [] left
  | chunk {stream front rest data left : Bytes} (hne : front ≠ [])
      (hsize : announced stream = some (front.length, front ++ rest))
      (htail : Drains closes rest data left) : Drains closes stream (front ++ data) left

/-- What is drained from where a body reader is. -/
def DrainsFrom (closes : Bool) (b : BodySocket) (data left : Bytes) : Prop :=
  if b.body.ended then data = [] ∧ left = b.sock.pending
  else ∃ front rest data', front.length = b.body.incoming ∧ b.sock.pending = front ++ rest ∧
    data = front ++ data' ∧ Drains closes rest data' left

/-- A reader of a chunked body, whose stream ends. -/
structure Chunked (closes : Bool) (b : BodySocket) : Prop where
  ended : b.body.ended → b.body.incoming = 0
  ends : Input.EndsIn closes b.sock.input.recvs

theorem Drains.last_iff {stream rest data left : Bytes}
    (hsize : announced stream = some (0, rest)) :
    Drains closes stream data left ↔ data = [] ∧ afterLast closes rest = some left := by
  constructor
  · intro h
    cases h with
    | last hsize' hend =>
      rw [hsize] at hsize'
      cases hsize'
      exact ⟨rfl, hend⟩
    | chunk hne hsize' htail =>
      rw [hsize] at hsize'
      have := (Prod.mk.inj (Option.some.inj hsize')).1
      exact absurd (List.length_eq_zero_iff.mp this.symm) hne
  · rintro ⟨rfl, hend⟩
    exact .last hsize hend

theorem Drains.chunk_iff {stream rest data left : Bytes} {n : Nat} (hn : n ≠ 0)
    (hsize : announced stream = some (n, rest)) :
    Drains closes stream data left ↔ ∃ front rest' data', front.length = n ∧
      rest = front ++ rest' ∧ data = front ++ data' ∧ Drains closes rest' data' left := by
  constructor
  · intro h
    cases h with
    | last hsize' hend =>
      rw [hsize] at hsize'
      exact absurd (Prod.mk.inj (Option.some.inj hsize')).1 hn
    | chunk hne hsize' htail =>
      rw [hsize] at hsize'
      obtain ⟨rfl, rfl⟩ := Prod.mk.inj (Option.some.inj hsize')
      exact ⟨_, _, _, rfl, rfl, rfl, htail⟩
  · rintro ⟨front, rest', data', rfl, rfl, rfl, htail⟩
    exact .chunk (List.length_pos_iff.mp (Nat.pos_of_ne_zero hn)) hsize htail

theorem Drains.of_none {stream data left : Bytes} (hsize : announced stream = none) :
    ¬ Drains closes stream data left := by
  intro h
  cases h with
  | last hsize' hend =>
    rw [hsize] at hsize'
    cases hsize'
  | chunk hne hsize' htail =>
    rw [hsize] at hsize'
    cases hsize'

/-! ## `has_incoming` -/

namespace HttpBody

/-- How an operation leaves off that tells whether there is more of the data that `drained` is
about: with the answer, at a place from where the same is drained; or without one, where nothing is. -/
def Looks (closes : Bool) (drained : Bytes → Bytes → Prop) (b : BodySocket) (o : Outcome Exn Bool)
    (b' : BodySocket) : Prop :=
  (o = .returned (decide (0 < b'.body.incoming)) ∧ Chunked closes b' ∧
      (b'.body.incoming = 0 → b'.body.ended) ∧
      b'.sock.pending.length ≤ b.sock.pending.length ∧
      ∀ data left, drained data left ↔ DrainsFrom closes b' data left) ∨
    Input.Starved closes o ∧ ∀ data left, ¬ drained data left

theorem lastChunk_leaves {b : BodySocket} {stream : Bytes}
    (hends : Input.EndsIn closes b.sock.input.recvs)
    (hsize : announced stream = some (0, b.sock.pending)) :
    ∃ o b', (do
        let _ ← onSocket readHttpLine
        pure false : Coro BodySocket Exn Bool).run { b with body := ⟨0, true⟩ } = (o, b') ∧
      Looks closes (Drains closes stream) b o b' := by
  let b₀ : BodySocket := { b with body := ⟨0, true⟩ }
  have hdrained : ∀ {rest : Bytes}, afterLast closes b.sock.pending = some rest → ∀ data left,
      Drains closes stream data left ↔ data = [] ∧ left = rest := by
    intro rest hafter data left
    rw [Drains.last_iff hsize, hafter, Option.some_inj, @eq_comm _ rest]
  rcases readHttpLine_leaves hends with ⟨val, rest, s', hcut, hrun, hp, hends'⟩ |
    ⟨hcut, ⟨hclosed, s', hrun, hp, hends'⟩ | ⟨s', hrun, hopen⟩⟩
  · have hafter : afterLast closes b.sock.pending = some rest := by rw [afterLast, hcut]
    refine ⟨_, ⟨⟨0, true⟩, s'⟩, Coro.bind_returned _ (run_onSocket (b := b₀) hrun),
      .inl ⟨rfl, ⟨fun _ => rfl, hends'⟩, fun _ => rfl, ?_, fun data left => ?_⟩⟩
    · rw [hp]
      exact Nat.le_of_lt (length_lt_of_cutLine hcut)
    · rw [hdrained hafter, DrainsFrom, if_pos rfl, hp]
  · have hafter : afterLast closes b.sock.pending = some [] := by
      rw [afterLast, hcut]
      exact if_pos hclosed
    refine ⟨_, ⟨⟨0, true⟩, s'⟩, Coro.bind_returned _ (run_onSocket (b := b₀) hrun),
      .inl ⟨rfl, ⟨fun _ => rfl, hends'⟩, fun _ => rfl, ?_, fun data left => ?_⟩⟩
    · rw [hp]
      exact Nat.zero_le _
    · rw [hdrained hafter, DrainsFrom, if_pos rfl, hp]
  · refine ⟨_, _, Coro.bind_suspended _ (run_onSocket (b := b₀) hrun), .inr ⟨.inr ⟨rfl, hopen⟩, ?_⟩⟩
    intro data left
    rw [Drains.last_iff hsize, afterLast, hcut, hopen]
    exact fun h => by cases h.2

theorem startChunk_none {val : Bytes} (h : chunkSize val = none) (b : BodySocket) :
    ∃ e, (startChunk ⟨val, true⟩).run b = (.threw e, b) := by
  unfold startChunk
  by_cases hval : (HttpLine.hasValue ⟨val, true⟩) = true
  · rw [hval, Bool.not_true, if_neg Bool.false_ne_true]
    rw [chunkSize] at h
    split
    · rename_i hread
      rw [hread] at h
      cases h
    · rename_i hread
      rw [hread] at h
      cases h
    · exact ⟨_, rfl⟩
  · rw [Bool.not_eq_true _ |>.mp hval, Bool.not_false, if_pos rfl]
    exact ⟨_, rfl⟩

theorem startChunk_some {val : Bytes} {n : Nat} (h : chunkSize val = some n) (b : BodySocket) :
    (startChunk ⟨val, true⟩).run b =
      if n = 0 then (do
        let _ ← onSocket readHttpLine
        pure false : Coro BodySocket Exn Bool).run { b with body := ⟨0, true⟩ }
      else (.returned true, { b with body := { b.body with incoming := n } }) := by
  rw [chunkSize] at h
  have hval : (HttpLine.hasValue ⟨val, true⟩) = true := by
    cases val with
    | nil => cases h
    | cons c cs => rfl
  unfold startChunk
  rw [hval, Bool.not_true, if_neg Bool.false_ne_true]
  cases hread : fromChars 16 val with
  | invalidArgument => simp [hread] at h
  | resultOutOfRange => simp [hread] at h
  | ok z tail =>
    cases z with
    | negSucc m => simp [hread] at h
    | ofNat m =>
      obtain rfl : m = n := by simpa [hread] using h
      cases m with
      | zero => rfl
      | succ m => rfl

theorem startChunk_leaves {b : BodySocket} {stream val : Bytes} (hbody : b.body.ended = false)
    (hends : Input.EndsIn closes b.sock.input.recvs)
    (hline : sizeLine stream = some (val, b.sock.pending)) :
    ∃ o b', (startChunk ⟨val, true⟩).run b = (o, b') ∧
      Looks closes (Drains closes stream) b o b' := by
  cases hsize : chunkSize val with
  | none =>
    obtain ⟨e, hrun⟩ := startChunk_none hsize b
    refine ⟨_, b, hrun, .inr ⟨.inl ⟨e, rfl⟩, fun data left => Drains.of_none ?_⟩⟩
    rw [announced_of_sizeLine hline, hsize, Option.map_none]
  | some n =>
    have hann : announced stream = some (n, b.sock.pending) := by
      rw [announced_of_sizeLine hline, hsize, Option.map_some]
    rw [startChunk_some hsize]
    by_cases hn : n = 0
    · subst hn
      exact lastChunk_leaves hends hann
    · rw [if_neg hn]
      refine ⟨_, _, rfl, .inl ⟨?_, ⟨fun h => ?_, hends⟩, fun h => absurd h hn, Nat.le_refl _,
        fun data left => ?_⟩⟩
      · exact congrArg Outcome.returned (decide_eq_true (Nat.pos_of_ne_zero hn)).symm
      · rw [hbody] at h
        cases h
      · rw [Drains.chunk_iff hn hann, DrainsFrom, if_neg (by rw [hbody]; simp)]

theorem hasIncoming_leaves {b : BodySocket} (h : Chunked closes b) :
    ∃ o b', hasIncoming.run b = (o, b') ∧ Looks closes (DrainsFrom closes b) b o b' := by
  rw [hasIncoming, Coro.run_get_bind]
  by_cases hknown : 0 < b.body.incoming ∨ b.body.ended
  · rw [if_pos hknown]
    refine ⟨_, b, rfl, .inl ⟨rfl, h, fun hzero => ?_, Nat.le_refl _, fun _ _ => Iff.rfl⟩⟩
    exact hknown.resolve_left (by omega)
  · rw [if_neg hknown]
    rw [not_or, Bool.not_eq_true] at hknown
    obtain ⟨hzero, hended⟩ := hknown
    have hfrom : ∀ data left,
        DrainsFrom closes b data left ↔ Drains closes b.sock.pending data left := by
      intro data left
      rw [DrainsFrom, hended, if_neg Bool.false_ne_true]
      constructor
      · rintro ⟨front, rest, data', hfront, hp, rfl, hd⟩
        obtain rfl : front = [] := List.length_eq_zero_iff.mp (by omega)
        rwa [hp]
      · exact fun hd => ⟨[], _, data, by rw [List.length_nil]; omega, rfl, rfl, hd⟩
    have hnone : sizeLine b.sock.pending = none → ∀ data left, ¬ DrainsFrom closes b data left :=
      fun hline data left hd => Drains.of_none (announced_of_none hline) ((hfrom data left).mp hd)
    -- the size line has been read, behind an empty line or not
    have hstart : ∀ {s' : Socket} {val : Bytes}, Input.EndsIn closes s'.input.recvs →
        s'.pending.length ≤ b.sock.pending.length →
        sizeLine b.sock.pending = some (val, s'.pending) →
        ∃ o b', (startChunk ⟨val, true⟩).run { b with sock := s' } = (o, b') ∧
          Looks closes (DrainsFrom closes b) b o b' := by
      intro s' val hends' hle hline
      obtain ⟨o, b', hrun, hlooks⟩ := startChunk_leaves (b := { b with sock := s' }) hended hends'
        hline
      refine ⟨o, b', hrun, ?_⟩
      rcases hlooks with ⟨ho, h', hended', hle', hsame⟩ | ⟨ho, hno⟩
      · exact .inl ⟨ho, h', hended', hle'.trans hle,
          fun data left => (hfrom data left).trans (hsame data left)⟩
      · exact .inr ⟨ho, fun data left hd => hno data left ((hfrom data left).mp hd)⟩
    have hunended : ∀ (text : Bytes) (b' : BodySocket),
        ∃ e, (startChunk ⟨text, false⟩).run b' = (.threw e, b') := fun text b' => ⟨_, rfl⟩
    rcases readHttpLine_leaves h.ends with ⟨val, rest, s', hcut, hrun, hp, hends'⟩ |
      ⟨hcut, ⟨-, s', hrun, -, -⟩ | ⟨s', hrun, hopen⟩⟩
    · rw [Coro.bind_returned _ (run_onSocket hrun)]
      have hle : s'.pending.length ≤ b.sock.pending.length := by
        rw [hp]
        exact Nat.le_of_lt (length_lt_of_cutLine hcut)
      by_cases hval : val = []
      · subst hval
        have hline := sizeLine_of_empty hcut
        rw [if_pos (show (HttpLine.isLastLine ⟨[], true⟩) = true from rfl)]
        rw [← hp] at hline
        rcases readHttpLine_leaves hends' with ⟨val, rest', s'', hcut', hrun', hp', hends''⟩ |
          ⟨hcut', ⟨-, s'', hrun', -, -⟩ | ⟨s'', hrun', hopen⟩⟩
        · rw [Coro.bind_returned _ (run_onSocket (b := { b with sock := s' }) hrun')]
          rw [hcut', ← hp'] at hline
          refine hstart hends'' (Nat.le_trans ?_ hle) hline
          rw [hp']
          exact Nat.le_of_lt (length_lt_of_cutLine hcut')
        · rw [Coro.bind_returned _ (run_onSocket (b := { b with sock := s' }) hrun')]
          obtain ⟨e, hstarted⟩ := hunended s'.pending { b with sock := s'' }
          exact ⟨_, _, hstarted, .inr ⟨.inl ⟨e, rfl⟩, hnone (hline.trans hcut')⟩⟩
        · rw [Coro.bind_suspended _ (run_onSocket (b := { b with sock := s' }) hrun')]
          exact ⟨_, _, rfl, .inr ⟨.inr ⟨rfl, hopen⟩, hnone (hline.trans hcut')⟩⟩
      · have hlast : (HttpLine.isLastLine ⟨val, true⟩) = false := by
          simp [HttpLine.isLastLine, hval]
        rw [hlast, if_neg Bool.false_ne_true]
        refine hstart hends' hle ?_
        rw [hp]
        exact sizeLine_of_ne hcut hval
    · rw [Coro.bind_returned _ (run_onSocket hrun)]
      obtain ⟨e, hstarted⟩ := hunended b.sock.pending { b with sock := s' }
      exact ⟨_, _, hstarted, .inr ⟨.inl ⟨e, rfl⟩, hnone (sizeLine_of_none hcut)⟩⟩
    · rw [Coro.bind_suspended _ (run_onSocket hrun)]
      exact ⟨_, _, rfl, .inr ⟨.inr ⟨rfl, hopen⟩, hnone (sizeLine_of_none hcut)⟩⟩

/-! ## The reads and `skip` -/

variable {γ : Type} {op : γ → Nat → Coro Socket Exn γ} {f : γ → Bytes → γ}

/-- From one place to a later one, with these pieces of the data between them. -/
structure Takes (closes : Bool) (b : BodySocket) (pieces : List Bytes) (b' : BodySocket) :
    Prop where
  chunked : Chunked closes b'
  length_le : b'.sock.pending.length + pieces.flatten.length ≤ b.sock.pending.length
  drains : ∀ data left, DrainsFrom closes b data left ↔
    ∃ data', data = pieces.flatten ++ data' ∧ DrainsFrom closes b' data' left

theorem Takes.of_same {b b' : BodySocket} (h : Chunked closes b')
    (hle : b'.sock.pending.length ≤ b.sock.pending.length)
    (hsame : ∀ data left, DrainsFrom closes b data left ↔ DrainsFrom closes b' data left) :
    Takes closes b [] b' where
  chunked := h
  length_le := hle
  drains := fun data left => by
    rw [hsame]
    constructor
    · exact fun hd => ⟨data, rfl, hd⟩
    · rintro ⟨data', rfl, hd⟩
      exact hd

theorem Takes.trans {b b' b'' : BodySocket} {pieces pieces' : List Bytes}
    (h : Takes closes b pieces b') (h' : Takes closes b' pieces' b'') :
    Takes closes b (pieces ++ pieces') b'' where
  chunked := h'.chunked
  length_le := by
    have hle := h.length_le
    have hle' := h'.length_le
    rw [List.flatten_append, List.length_append]
    omega
  drains := fun data left => by
    rw [h.drains]
    constructor
    · rintro ⟨data', rfl, hd⟩
      obtain ⟨data'', rfl, hd'⟩ := (h'.drains data' left).mp hd
      exact ⟨data'', by rw [List.flatten_append, List.append_assoc], hd'⟩
    · rintro ⟨data'', rfl, hd⟩
      exact ⟨_, by rw [List.flatten_append, List.append_assoc],
        (h'.drains _ left).mpr ⟨data'', rfl, hd⟩⟩

theorem drainsFrom_append {b : BodySocket} {s : Socket} {bs : Bytes} (hended : b.body.ended = false)
    (hp : b.sock.pending = bs ++ s.pending) (hle : bs.length ≤ b.body.incoming)
    (data left : Bytes) : DrainsFrom closes b data left ↔ ∃ data', data = bs ++ data' ∧
      DrainsFrom closes ⟨{ b.body with incoming := b.body.incoming - bs.length }, s⟩ data'
        left := by
  simp only [DrainsFrom, hended, Bool.false_eq_true, if_false, hp]
  constructor
  · rintro ⟨front, rest, data', hfront, hrest, rfl, hd⟩
    obtain ⟨more, rfl⟩ : ∃ more, front = bs ++ more := by
      have hbs : bs <+: front :=
        List.prefix_of_prefix_length_le ⟨_, rfl⟩ ⟨_, hrest.symm⟩ (by omega)
      exact ⟨_, hbs.choose_spec.symm⟩
    rw [List.append_assoc, List.append_cancel_left_eq] at hrest
    rw [List.length_append] at hfront
    exact ⟨more ++ data', List.append_assoc _ _ _, more, rest, data', by omega, hrest, rfl, hd⟩
  · rintro ⟨_, rfl, more, rest, data', hmore, hrest, rfl, hd⟩
    exact ⟨bs ++ more, rest, data', by rw [List.length_append]; omega,
      by rw [hrest, List.append_assoc], (List.append_assoc _ _ _).symm, hd⟩

/-- One round takes a piece, or ends the loop where it is or at the end of the body, or does not
return. -/
theorem transferRound_leaves (hop : Delivers op f)
    (hstarves : ∀ acc s n, Input.EndsIn closes s.input.recvs → s.pending.length < n →
      Input.Starved closes ((op acc n).run s).1)
    {b : BodySocket} (h : Chunked closes b) (size : Int) (acc : γ) (total : Nat) :
    ∃ r b', (transferRound op size (acc, total)).run b = (r, b') ∧
      ((∃ piece, r = .returned (.inl (f acc piece, total + piece.length)) ∧ piece ≠ [] ∧
          Takes closes b [piece] b') ∨
        (r = .returned (.inr (acc, total)) ∧ Takes closes b [] b' ∧
          (size.toNat ≤ total ∨ b'.body.ended)) ∨
        Input.Starved closes r ∧ ∀ data left, ¬ DrainsFrom closes b data left) := by
  rw [transferRound, transferRoundOf]
  by_cases hsize : (total : Int) < size
  · rw [if_pos hsize]
    obtain ⟨o, b₁, hrun, ⟨rfl, h₁, hend₁, hle₁, hsame₁⟩ | ⟨ho, hno⟩⟩ := hasIncoming_leaves h
    · rw [Coro.bind_returned _ hrun]
      by_cases hmore : 0 < b₁.body.incoming
      · rw [decide_eq_true hmore, if_pos rfl, Coro.run_get_bind]
        have hended : b₁.body.ended = false := by
          rw [← Bool.not_eq_true]
          exact fun h => by rw [h₁.ended h] at hmore; omega
        let n := min (size - total).toNat b₁.body.incoming
        by_cases hn : n ≤ b₁.sock.pending.length
        · have hlen : (b₁.sock.pending.take n).length = n := List.length_take_of_le hn
          obtain ⟨s₂, hrun₂, hc₂⟩ := hop acc b₁.sock (b₁.sock.pending.take n)
            (b₁.sock.pending.drop n) (List.take_append_drop _ _).symm
          rw [hlen] at hrun₂
          refine ⟨.returned (.inl (f acc (b₁.sock.pending.take n), total + n)),
            ⟨{ b₁.body with incoming := b₁.body.incoming - n }, s₂⟩,
            Coro.bind_returned _ (run_onSocket hrun₂), .inl
              ⟨b₁.sock.pending.take n, by rw [hlen], ?_, ?_⟩⟩
          · rw [← List.length_pos_iff, hlen]
            omega
          · refine (Takes.of_same h₁ hle₁ hsame₁).trans
              ⟨⟨fun hend => ?_, hc₂.1.endsIn h₁.ends⟩, ?_, ?_⟩
            · rw [hended] at hend
              cases hend
            · have hp := congrArg List.length hc₂.pending_eq
              rw [List.length_append] at hp
              rw [List.flatten_singleton]
              show s₂.pending.length + _ ≤ _
              omega
            · intro data left
              have hle : (b₁.sock.pending.take n).length ≤ b₁.body.incoming := by
                rw [hlen]
                exact Nat.min_le_right _ _
              rw [drainsFrom_append hended hc₂.pending_eq hle, List.flatten_singleton, hlen]
        · have hstarve := hstarves acc b₁.sock n h₁.ends (by omega)
          refine ⟨_, _, rfl,
            .inr (.inr ⟨Input.Starved.bind (t := onSocket (op acc n)) hstarve _, ?_⟩)⟩
          intro data left hd
          have hd₁ := (hsame₁ data left).mp hd
          rw [DrainsFrom, hended, if_neg Bool.false_ne_true] at hd₁
          obtain ⟨front, rest, data', hfront, hp, -⟩ := hd₁
          have hlen := congrArg List.length hp
          rw [List.length_append] at hlen
          omega
      · rw [decide_eq_false hmore, if_neg Bool.false_ne_true]
        exact ⟨_, b₁, rfl, .inr (.inl ⟨rfl, Takes.of_same h₁ hle₁ hsame₁, .inr (hend₁ (by omega))⟩)⟩
    · have hstarve : Input.Starved closes (hasIncoming.run b).1 := by rwa [hrun]
      exact ⟨_, _, rfl, .inr (.inr ⟨hstarve.bind _, hno⟩)⟩
  · rw [if_neg hsize]
    exact ⟨_, b, rfl, .inr (.inl ⟨rfl, Takes.of_same h (Nat.le_refl _) fun _ _ => Iff.rfl,
      .inl (by omega)⟩)⟩

/-- The reads and `skip` take pieces until they have `size` bytes or the body has ended. -/
theorem transfer_leaves (hop : Delivers op f)
    (hstarves : ∀ acc s n, Input.EndsIn closes s.input.recvs → s.pending.length < n →
      Input.Starved closes ((op acc n).run s).1)
    {b : BodySocket} (h : Chunked closes b) (size : Int) (init : γ) :
    ∃ o b', (transfer op size init).run b = (o, b') ∧
      ((∃ pieces, o = .returned (pieces.foldl f init, pieces.flatten.length) ∧
          Takes closes b pieces b' ∧ (size.toNat ≤ pieces.flatten.length ∨ b'.body.ended)) ∨
        Input.Starved closes o ∧ ∀ data left, ¬ DrainsFrom closes b data left) := by
  apply Coro.loop_leaves (fun b => b.sock.pending.length + 1) (transferRound op size)
    (fun acc b' => ∃ pieces, acc = (pieces.foldl f init, pieces.flatten.length) ∧
      Takes closes b pieces b') _ (fun _ b' => b'.sock.pending.length) (init, 0) b
    ⟨[], rfl, .of_same h (Nat.le_refl _) fun _ _ => Iff.rfl⟩ (Nat.lt_succ_self _)
  rintro _ b₁ ⟨pieces, rfl, htakes⟩
  obtain ⟨r, b₂, hrun, ⟨piece, rfl, hne, htakes₂⟩ | ⟨rfl, htakes₂, hend⟩ | ⟨hr, hno⟩⟩ :=
    transferRound_leaves hop hstarves htakes.chunked size (pieces.foldl f init)
      pieces.flatten.length
  · refine .inl ⟨_, b₂, hrun, ⟨pieces ++ [piece], ?_, htakes.trans htakes₂⟩, ?_⟩
    · rw [List.foldl_concat, List.flatten_concat, List.length_append]
    · have hle := htakes₂.length_le
      have hpos := List.length_pos_iff.mpr hne
      rw [List.flatten_singleton] at hle
      omega
  · have := htakes.trans htakes₂
    rw [List.append_nil] at this
    exact .inr ⟨_, b₂, _, hrun, rfl, .inl ⟨pieces, rfl, this, hend⟩⟩
  · obtain ⟨o, hleave, ho⟩ := hr.leave
    refine .inr ⟨r, b₂, o, hrun, hleave, .inr ⟨ho, fun data left hd => ?_⟩⟩
    obtain ⟨data', -, hd'⟩ := (htakes.drains data left).mp hd
    exact hno data' left hd'

end HttpBody

/-! ## Until there is no more -/

/-- What an endpoint calls to drain a body. -/
inductive BodyCall where
  | read (size : Nat) (pos : 0 < size)
  | skip (size : Nat) (pos : 0 < size)

/-- What a call appends to the endpoint's string, or the number of bytes that it has skipped. -/
inductive BodyReply where
  | appended (bs : Bytes)
  | skipped (n : Nat)
  deriving DecidableEq

namespace BodyCall

def size : BodyCall → Nat
  | read size _ | skip size _ => size

def perform : BodyCall → Coro BodySocket Exn BodyReply
  | read size _ => do
      let (bs, _) ← HttpBody.read size
      pure (.appended bs)
  | skip size _ => do
      let n ← HttpBody.skip size
      pure (.skipped n)

def reply (bs : Bytes) : BodyCall → BodyReply
  | read _ _ => .appended bs
  | skip _ _ => .skipped bs.length

theorem size_pos (call : BodyCall) : 0 < call.size := by
  cases call with
  | read size pos => exact pos
  | skip size pos => exact pos

theorem perform_leaves (call : BodyCall) {b : BodySocket} (h : Chunked closes b) :
    ∃ o b', call.perform.run b = (o, b') ∧
      ((∃ pieces, o = .returned (call.reply pieces.flatten) ∧ HttpBody.Takes closes b pieces b' ∧
          (call.size ≤ pieces.flatten.length ∨ b'.body.ended)) ∨
        Input.Starved closes o ∧ ∀ data left, ¬ DrainsFrom closes b data left) := by
  have hstarves : ∀ (name : String) (s : Socket) (n : Nat), Input.EndsIn closes s.input.recvs →
      s.pending.length < n → Input.Starved closes ((Input.consume name n true).run s.input).1 :=
    fun name s n hends hlt => (Input.consume_starves name hends hlt).1
  cases call with
  | read size pos =>
    obtain ⟨o, b', hrun, ⟨pieces, rfl, htakes, hend⟩ | ⟨ho, hno⟩⟩ :=
      HttpBody.transfer_leaves HttpBody.delivers_read (fun acc s n hends hlt => by
        apply Input.Starved.bind (t := Socket.read n true)
        show Input.Starved closes ((Input.read n true).run s.input).1
        rw [Input.read, if_neg (by omega), Int.toNat_natCast]
        exact hstarves _ s n hends hlt) h size []
    · rw [List.foldl_append_nil] at hrun
      exact ⟨_, b', Coro.bind_returned _ hrun, .inl ⟨pieces, rfl, htakes, hend⟩⟩
    · have hstarve : Input.Starved closes ((HttpBody.read size).run b).1 := by
        rw [HttpBody.read, hrun]
        exact ho
      exact ⟨_, _, rfl, .inr ⟨hstarve.bind _, hno⟩⟩
  | skip size pos =>
    obtain ⟨o, b', hrun, ⟨pieces, rfl, htakes, hend⟩ | ⟨ho, hno⟩⟩ :=
      HttpBody.transfer_leaves HttpBody.delivers_skip (fun acc s n hends hlt => by
        apply Input.Starved.bind (t := Socket.skip n true)
        show Input.Starved closes ((Input.skip n true).run s.input).1
        rw [Input.skip, if_neg (by omega), Int.toNat_natCast]
        exact (hstarves _ s n hends hlt).bind _) h size ()
    · have hskip : (HttpBody.skip size).run b = (.returned pieces.flatten.length, b') :=
        Coro.bind_returned _ hrun
      exact ⟨_, b', Coro.bind_returned _ hskip, .inl ⟨pieces, rfl, htakes, hend⟩⟩
    · have hstarve : Input.Starved closes ((HttpBody.skip size).run b).1 := by
        apply Input.Starved.bind
        rw [hrun]
        exact ho
      exact ⟨_, _, rfl, .inr ⟨hstarve.bind _, hno⟩⟩

end BodyCall

inductive Replies : List BodyReply → Bytes → Prop
  | nil : Replies [] []
  | appended {replies : List BodyReply} {data : Bytes} (bs : Bytes) (h : Replies replies data) :
      Replies (replies ++ [.appended bs]) (data ++ bs)
  | skipped {replies : List BodyReply} {data : Bytes} (bs : Bytes) (h : Replies replies data) :
      Replies (replies ++ [.skipped bs.length]) (data ++ bs)

/-- A round of `while (co_await body.has_incoming())`; the calls may differ from round to round. -/
def drainRound (calls : Nat → BodyCall) (replies : List BodyReply) :
    Coro BodySocket Exn (List BodyReply ⊕ List BodyReply) := do
  let more ← HttpBody.hasIncoming
  if more then do
    let reply ← (calls replies.length).perform
    pure (.inl (replies ++ [reply]))
  else pure (.inr replies)

/-- Read or skip until `has_incoming` says that there is no more. -/
def drain (calls : Nat → BodyCall) : Coro BodySocket Exn (List BodyReply) :=
  Coro.loop (fun b => b.sock.pending.length + 1) (drainRound calls) []

theorem Replies.concat {replies : List BodyReply} {data : Bytes} (h : Replies replies data)
    (call : BodyCall) (bs : Bytes) : Replies (replies ++ [call.reply bs]) (data ++ bs) := by
  cases call with
  | read size pos => exact .appended bs h
  | skip size pos => exact .skipped bs h

/-- Draining returns the data that is drained and leaves what is left; where nothing is drained it
does not return. -/
theorem drain_leaves (calls : Nat → BodyCall) {b : BodySocket} (h : Chunked closes b) :
    ∃ o b', (drain calls).run b = (o, b') ∧
      ((∃ replies data, o = .returned replies ∧ Replies replies data ∧
          ∀ data' left, DrainsFrom closes b data' left ↔ data' = data ∧ left = b'.sock.pending) ∨
        Input.Starved closes o ∧ ∀ data left, ¬ DrainsFrom closes b data left) := by
  apply Coro.loop_leaves (fun b => b.sock.pending.length + 1) (drainRound calls)
    (fun replies b' => ∃ pieces, Replies replies pieces.flatten ∧ HttpBody.Takes closes b pieces b')
    _ (fun _ b' => b'.sock.pending.length) [] b
    ⟨[], .nil, .of_same h (Nat.le_refl _) fun _ _ => Iff.rfl⟩ (Nat.lt_succ_self _)
  rintro replies b₁ ⟨pieces, hreplies, htakes⟩
  have hfails : ∀ {b₂ : BodySocket} {pieces₂ : List Bytes}, HttpBody.Takes closes b pieces₂ b₂ →
      (∀ data left, ¬ DrainsFrom closes b₂ data left) →
      ∀ data left, ¬ DrainsFrom closes b data left := fun htakes₂ hno data left hd => by
    obtain ⟨data', -, hd'⟩ := (htakes₂.drains data left).mp hd
    exact hno data' left hd'
  obtain ⟨o, b₂, hrun, ⟨rfl, h₂, hend₂, hle₂, hsame₂⟩ | ⟨ho, hno⟩⟩ :=
    HttpBody.hasIncoming_leaves htakes.chunked
  · have htakes₂ := htakes.trans (.of_same h₂ hle₂ hsame₂)
    rw [List.append_nil] at htakes₂
    by_cases hmore : 0 < b₂.body.incoming
    · obtain ⟨o, b₃, hrun₃, ⟨pieces₃, rfl, htakes₃, hend₃⟩ | ⟨ho, hno⟩⟩ :=
        (calls replies.length).perform_leaves h₂
      · have hpos : 0 < pieces₃.flatten.length := by
          rcases hend₃ with hsize | hended₃
          · exact Nat.lt_of_lt_of_le (calls replies.length).size_pos hsize
          · -- where nothing was taken and the body has ended, there was nothing to take
            by_contra hnone
            have hnil : pieces₃.flatten = [] := List.length_eq_zero_iff.mp (by omega)
            have hend : DrainsFrom closes b₃ [] b₃.sock.pending := by
              rw [DrainsFrom, if_pos hended₃]
              exact ⟨rfl, rfl⟩
            have hd := (htakes₃.drains _ _).mpr ⟨[], rfl, hend⟩
            rw [hnil, DrainsFrom, if_neg fun h => by rw [h₂.ended h] at hmore; omega] at hd
            obtain ⟨front, rest, data', hfront, -, hdata, -⟩ := hd
            rw [(List.append_eq_nil_iff.mp hdata.symm).1] at hfront
            rw [← hfront] at hmore
            cases hmore
        have hround : (drainRound calls replies).run b₁ =
            (.returned (.inl (replies ++ [(calls replies.length).reply pieces₃.flatten])), b₃) := by
          rw [drainRound, Coro.bind_returned _ hrun, decide_eq_true hmore, if_pos rfl,
            Coro.bind_returned _ hrun₃, Coro.run_pure]
        refine .inl ⟨_, b₃, hround, ⟨pieces ++ pieces₃, ?_, htakes₂.trans htakes₃⟩, ?_⟩
        · rw [List.flatten_append]
          exact hreplies.concat _ _
        · have hle₃ := htakes₃.length_le
          omega
      · have hstarve : Input.Starved closes ((drainRound calls replies).run b₁).1 := by
          rw [drainRound, Coro.bind_returned _ hrun, decide_eq_true hmore, if_pos rfl]
          exact Input.Starved.bind (by rwa [hrun₃]) _
        obtain ⟨o, hleave, ho⟩ := hstarve.leave
        exact .inr ⟨_, _, o, rfl, hleave, .inr ⟨ho, hfails htakes₂ hno⟩⟩
    · have hround : (drainRound calls replies).run b₁ = (.returned (.inr replies), b₂) := by
        rw [drainRound, Coro.bind_returned _ hrun, decide_eq_false hmore, if_neg Bool.false_ne_true,
          Coro.run_pure]
      refine .inr ⟨_, b₂, _, hround, rfl, .inl ⟨replies, _, rfl, hreplies, fun data left => ?_⟩⟩
      rw [htakes₂.drains]
      simp only [DrainsFrom, hend₂ (by omega), if_true]
      constructor
      · rintro ⟨_, rfl, rfl, hleft⟩
        exact ⟨List.append_nil _, hleft⟩
      · rintro ⟨rfl, hleft⟩
        exact ⟨[], (List.append_nil _).symm, rfl, hleft⟩
  · have hstarve : Input.Starved closes ((drainRound calls replies).run b₁).1 :=
      Input.Starved.bind (by rwa [hrun]) _
    obtain ⟨o, hleave, ho⟩ := hstarve.leave
    exact .inr ⟨_, _, o, rfl, hleave, .inr ⟨ho, hfails htakes hno⟩⟩

end CppEvent
