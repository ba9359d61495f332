import CppEvent.Library.Spending
import CppEvent.Http.Exchange
import CppEvent.Net.Ending
import CppEvent.Net.Writing

/-!
# Connections end

Whatever a peer sends before it closes, in whatever packets, `on_connection` ends, whatever its
endpoints do (`onConnection_ends`): all its loops live on the bytes still to come. Within a body whose
bytes are to come a peer need not close: an exchange waits for nothing but a send (`complete_stays`).
-/

namespace CppEvent

open Coroutine

variable {σ ε α β : Type} {sends : Nat → SendCompletion}

/-- The sends of the socket are those of `sends` that are left. -/
def Sending (sends : Nat → SendCompletion) (s : Socket) : Prop :=
  ∃ k, s.output.sends = fun i => sends (i + k)

/-- A socket whose peer closes behind what it sends. -/
def Closing (sends : Nat → SendCompletion) (s : Socket) : Prop :=
  Input.EndsIn true s.input.recvs ∧ Sending sends s

/-- `t` takes as many of the bytes to come as it costs, and ends unless a send never completes. -/
def Ends (sends : Nat → SendCompletion) (sock : σ → Socket) (t : Coro σ ε α)
    (cost : α → Nat) : Prop :=
  t.Spends (fun s => Closing sends (sock s)) (fun s => (sock s).pending.length)
    (∃ i, sends i = .stalled) cost

/-- `t` waits for nothing but a send, whatever is to be read. -/
def OnlySends (sends : Nat → SendCompletion) (sock : σ → Socket) (t : Coro σ ε α) : Prop :=
  t.Spends (fun s => Sending sends (sock s)) (fun _ => 0) (∃ i, sends i = .stalled) fun _ => 0

/-- What ends on a part of the state with the socket in it ends on the state. -/
theorem Ends.focus {τ : Type} {sock : σ → Socket} {part : τ → Socket} {get : σ → τ}
    {set : τ → σ → σ} {t : Coro τ ε α} {cost : α → Nat} (h : Ends sends part t cost)
    (hget : ∀ s, part (get s) = sock s) (hset : ∀ p s, sock (set p s) = part p) :
    Ends sends sock (Coro.focus get set t) cost := by
  refine Coro.Spends.focus h (fun s hs => ?_) fun p s hp => ?_
  · rw [hget]
    exact ⟨hs, rfl⟩
  · rw [hset]
    exact ⟨hp, rfl⟩

theorem Ends.modify {sock : σ → Socket} {f : σ → σ} (hf : ∀ s, sock (f s) = sock s) :
    Ends sends sock (Coro.modify f : Coro σ ε Unit) fun _ => 0 := by
  refine Coro.Spends.modify (fun s hs => ?_) fun s => ?_
  · rw [hf]
    exact hs
  · rw [hf]

theorem OnlySends.modify {sock : σ → Socket} {f : σ → σ} (hf : ∀ s, sock (f s) = sock s) :
    OnlySends sends sock (Coro.modify f : Coro σ ε Unit) := by
  refine Coro.Spends.modify (fun s hs => ?_) fun s => Nat.le_refl _
  rw [hf]
  exact hs

theorem OnlySends.ends {sock : σ → Socket} {t : Coro σ ε α} (h : OnlySends sends sock t)
    (hkeeps : Coro.Keeps (fun s => (sock s).input) t) : Ends sends sock t fun _ => 0 := by
  intro s hs
  have hleft := h s hs.2
  have hinput : (sock (t.run s).2).input = (sock s).input := hkeeps s
  rcases hrun : t.run s with ⟨o, s'⟩
  rw [hrun] at hleft hinput
  have hclosing (hsends : Sending sends (sock s')) :
      Closing sends (sock s') ∧ (sock s').pending.length ≤ (sock s).pending.length := by
    refine ⟨⟨?_, hsends⟩, ?_⟩
    · rw [show (sock s').input = (sock s).input from hinput]
      exact hs.1
    · rw [Socket.pending, show (sock s').input = (sock s).input from hinput]
  cases o with
  | returned a => exact hclosing hleft.1
  | threw e => exact hclosing hleft.1
  | suspended => exact hleft
  | undefined => exact hleft

theorem Closing.consumes {s s' : Socket} {bs : Bytes} (h : Closing sends s)
    (hc : s.Consumes bs s') :
    Closing sends s' ∧ s'.pending.length + bs.length = s.pending.length := by
  refine ⟨⟨hc.1.endsIn h.1, by rw [Sending, hc.2.1]; exact h.2⟩, ?_⟩
  rw [hc.pending_eq, List.length_append, Nat.add_comm]

theorem Closing.start {s : Socket} (h : Input.EndsIn true s.input.recvs) :
    Closing s.output.sends s := ⟨h, 0, rfl⟩

/-- Where the peer closes, every round that another one follows takes a byte. -/
def TakesEachRound (sock : σ → Socket) (round : β → Coro σ Exn (β ⊕ α)) : Prop :=
  ∀ b b' s s', Input.EndsIn true (sock s).input.recvs →
    (round b).run s = (.returned (.inl b'), s') →
    (sock s').pending.length < (sock s).pending.length

theorem TakesEachRound.of_ends {sock : σ → Socket} {round : β → Coro σ Exn (β ⊕ α)} {cost : α → Nat}
    (h : ∀ sends b, Ends sends sock (round b) (Coro.roundCost cost)) :
    TakesEachRound sock round := by
  intro b b' s s' hends hrun
  have hleft := h _ b s (Closing.start hends)
  rw [hrun] at hleft
  exact hleft.2

/-! ## Reading -/

namespace HttpLine

theorem received_of_hasValue (line : HttpLine) (h : line.hasValue = true) : line.received = true :=
  (Bool.and_eq_true_iff.mp h).1

theorem received_of_isLastLine (line : HttpLine) (h : line.isLastLine = true) :
    line.received = true := (Bool.and_eq_true_iff.mp h).1

end HttpLine

theorem takeLine_prefix (cs : Bytes) : ∃ rest, cs = (takeLine cs).1 ++ rest := by
  induction cs with
  | nil => exact ⟨[], rfl⟩
  | cons c cs ih =>
    obtain ⟨rest, hrest⟩ := ih
    rw [takeLine]
    split
    · exact ⟨cs, rfl⟩
    · exact ⟨rest, by rw [List.cons_append, ← hrest]⟩

theorem takeLine_ne_nil {cs : Bytes} (h : cs ≠ []) : (takeLine cs).1 ≠ [] := by
  cases cs with
  | nil => exact absurd rfl h
  | cons c cs =>
    rw [takeLine]
    split <;> exact List.cons_ne_nil _ _

/-- A round of `read_http_line` takes a byte unless it finds the end of the stream. -/
theorem lineRound_ends (line : Bytes) : Ends sends id (lineRound line)
    (Coro.roundCost fun p => if p.2 then 1 else 0) := by
  intro s (h : Closing sends s)
  by_cases hnil : s.pending = []
  · rcases Input.peek_ends h.1 hnil with ⟨-, i, hpeek, hc⟩ | ⟨i, -, hopen⟩
    · obtain ⟨s₁, hpeek₁, -, hc₁⟩ := Socket.run_onInput hpeek hc
      obtain ⟨h₁, hlen₁⟩ := h.consumes hc₁
      have hrun : (lineRound line).run s = (.returned (.inr (line, false)), s₁) := by
        rw [lineRound, Socket.peek, Coro.bind_returned _ hpeek₁, if_pos rfl, Coro.run_pure]
      rw [hrun]
      exact ⟨h₁, hlen₁.le⟩
    · cases hopen
  · obtain ⟨s₁, hpeek, hne, hc₁⟩ := Socket.peek_run hnil
    obtain ⟨rest, hrest⟩ := takeLine_prefix s₁.input.buffer.unread
    obtain ⟨s₂, hseek, hc₂⟩ := Socket.seek_run _ rest hrest
    obtain ⟨h₂, hlen₂⟩ := h.consumes (hc₁.trans hc₂)
    have hpos := List.length_pos_iff.mpr (takeLine_ne_nil hne)
    rw [List.nil_append] at hlen₂
    rw [lineRound, Coro.bind_returned _ hpeek, if_neg hne, Coro.bind_returned _ hseek]
    split
    · refine ⟨h₂, ?_⟩
      show s₂.pending.length + 1 ≤ s.pending.length
      omega
    · refine ⟨h₂, ?_⟩
      show s₂.pending.length + 1 ≤ s.pending.length
      omega

theorem readHttpLine_ends :
    Ends sends id readHttpLine fun line => if line.received then 1 else 0 :=
  .bind (.loop lineRound_ends (fun _ => Nat.lt_succ_self _) []) fun _ => .pure (Nat.sub_self _)

theorem consume_ends (name : String) (size : Nat) :
    Ends sends id (Socket.onInput (Input.consume name size true)) fun _ => size := by
  intro s (h : Closing sends s)
  by_cases hle : size ≤ s.pending.length
  · have hlen : (s.pending.take size).length = size := List.length_take_of_le hle
    obtain ⟨i, hrun, hc⟩ := Input.consume_run name true s.input
      (List.take_append_drop size s.pending).symm
    obtain ⟨s₁, hrun₁, -, hc₁⟩ := Socket.run_onInput hrun hc
    obtain ⟨h₁, hlen₁⟩ := h.consumes hc₁
    rw [hlen] at hrun₁ hlen₁
    rw [hrun₁]
    exact ⟨h₁, hlen₁.le⟩
  · obtain ⟨hstarved, hend⟩ := Input.consume_starves name h.1 (Nat.lt_of_not_le hle)
    obtain ⟨hends, hnil⟩ := hend rfl
    rcases hrun : (Input.consume name size true).run s.input with ⟨o, i⟩
    rw [hrun] at hstarved hends hnil
    rcases hstarved with ⟨e, rfl⟩ | ⟨-, hopen⟩
    · rw [Socket.onInput, Coro.run_focus hrun]
      refine ⟨⟨hends, h.2⟩, ?_⟩
      show i.pending.length ≤ s.pending.length
      rw [hnil]
      exact Nat.zero_le _
    · cases hopen

namespace Socket

theorem readInto_ends (n : Nat) : Ends sends id (readInto n true) fun _ => n := by
  rw [readInto, Input.readInto, if_neg (by omega), Int.toNat_natCast]
  exact consume_ends _ n

theorem read_ends (n : Nat) : Ends sends id (read n true) fun _ => n := by
  rw [read, Input.read, if_neg (by omega), Int.toNat_natCast]
  exact consume_ends _ n

theorem skip_ends (n : Nat) : Ends sends id (skip n true) fun _ => n := by
  have hfield : Coro.IsField input fun i s => { s with input := i } :=
    ⟨fun _ _ => rfl, fun _ _ _ => rfl⟩
  rw [skip, Input.skip, if_neg (by omega), Int.toNat_natCast, onInput, Coro.focus_bind hfield]
  refine .bind (consume_ends _ n) fun bs s hs => ⟨hs, ?_⟩
  rw [Nat.sub_self]
  exact Nat.le_refl _

end Socket

/-! ## Writing -/

theorem onOutput_sends {t : Coro Output Exn Unit}
    (h : ∀ s, ∃ o s', t.run s = (o, s') ∧ Output.Drains s o s') :
    OnlySends sends id (Socket.onOutput t) := by
  rintro s ⟨k, hsends⟩
  obtain ⟨o, s', hrun, k', s₁, ⟨-, hsends₁⟩, ho⟩ := h s.output
  rw [id_eq] at hsends
  rw [hsends] at hsends₁
  rw [Socket.onOutput, Coro.run_focus hrun]
  cases o with
  | returned u =>
    have ho : s'.sends = s₁.sends := ho
    have hsends' : s'.sends = fun i => sends (i + (k' + k)) := by
      rw [ho, hsends₁]
      exact funext fun i => congrArg sends (by omega)
    exact ⟨⟨_, hsends'⟩, Nat.le_refl _⟩
  | threw e =>
    obtain ⟨errnum, pos, -, -, ho⟩ := ho
    have hsends' : s'.sends = fun i => sends (i + (1 + (k' + k))) := by
      rw [ho, hsends₁]
      exact funext fun i => congrArg sends (by omega)
    exact ⟨⟨_, hsends'⟩, Nat.le_refl _⟩
  | suspended =>
    have ho : s₁.sends 0 = .stalled := ho
    rw [hsends₁] at ho
    exact ⟨_, ho⟩
  | undefined => exact ho.elim

theorem write_sends (src : Bytes) : OnlySends sends id (Socket.write src) :=
  onOutput_sends fun s => by
    obtain ⟨o, s', hrun, hdrains, -⟩ := Output.write_leaves src s
    exact ⟨o, s', hrun, hdrains⟩

theorem flush_sends : OnlySends sends id Socket.flush :=
  onOutput_sends fun s => by
    obtain ⟨o, s', hrun, -, hdrains, -⟩ := Output.flush_leaves s
    exact ⟨o, s', hrun, hdrains⟩

namespace HttpOutput

theorem onSocket_sends {t : Coro Socket Exn α} (h : OnlySends sends id t) :
    OnlySends sends OutputSocket.sock (onSocket t) :=
  Coro.Spends.focus h (fun _ hs => ⟨hs, rfl⟩) fun _ _ hp => ⟨hp, rfl⟩

theorem rawWrite_sends (src : Bytes) : OnlySends sends OutputSocket.sock (rawWrite src) :=
  onSocket_sends (CppEvent.write_sends src)

theorem writeHeaderLines_sends (lines : List (Bytes × Bytes)) :
    OnlySends sends OutputSocket.sock (writeHeaderLines lines) := by
  induction lines with
  | nil => exact .pure rfl
  | cons line lines ih =>
    exact .bind (rawWrite_sends _) fun _ => .bind (rawWrite_sends _) fun _ =>
      .bind (rawWrite_sends _) fun _ => .bind (rawWrite_sends _) fun _ => ih

theorem writeHeaders_sends : OnlySends sends OutputSocket.sock writeHeaders := by
  refine .bind .get fun o => .ite (.pure rfl) (.bind (OnlySends.modify fun _ => rfl) fun _ =>
    .bind (rawWrite_sends _) fun _ => ?_)
  cases getStatusReasonPhrase o.res.status with
  | error e => exact .fail e
  | ok phrase =>
    exact .bind (rawWrite_sends _) fun _ => .bind (rawWrite_sends _) fun _ =>
      .bind (writeHeaderLines_sends _) fun _ => .bind (rawWrite_sends _) fun _ =>
        OnlySends.modify fun _ => rfl

theorem write_sends (src : Bytes) : OnlySends sends OutputSocket.sock (write src) :=
  .ite (.fail _) (.bind writeHeaders_sends fun _ => .bind .get fun _ =>
    .ite (.bind (rawWrite_sends _) fun _ => .bind (rawWrite_sends _) fun _ =>
      .bind (rawWrite_sends _) fun _ => rawWrite_sends _) (rawWrite_sends _))

theorem finish_sends : OnlySends sends OutputSocket.sock finish := by
  have hflush : OnlySends sends OutputSocket.sock (onSocket Socket.flush) :=
    onSocket_sends flush_sends
  exact .bind writeHeaders_sends fun _ => .bind .get fun _ =>
    .ite (.bind (rawWrite_sends _) fun _ => hflush) hflush

theorem write_ends (src : Bytes) : Ends sends OutputSocket.sock (write src) fun _ => 0 :=
  (write_sends src).ends fun o => congrArg Prod.fst (write_keeps src o)

theorem finish_ends : Ends sends OutputSocket.sock finish fun _ => 0 :=
  finish_sends.ends fun o => congrArg Prod.fst (finish_keeps o)

end HttpOutput

/-! ## Bodies -/

namespace HttpBody

theorem onSocket_ends {t : Coro Socket Exn α} {cost : α → Nat} (h : Ends sends id t cost) :
    Ends sends BodySocket.sock (onSocket t) cost :=
  h.focus (fun _ => rfl) fun _ _ => rfl

theorem startChunk_ends (line : HttpLine) :
    Ends sends BodySocket.sock (startChunk line) fun _ => 1 - if line.received then 1 else 0 := by
  by_cases hvalue : line.hasValue = true
  · have hreceived : line.received = true := line.received_of_hasValue hvalue
    rw [startChunk, if_neg (by rw [hvalue]; decide), if_pos hreceived]
    split
    · exact .bind (Ends.modify fun _ => rfl) fun _ =>
        .bind (onSocket_ends (CppEvent.readHttpLine_ends.mono fun _ => Nat.zero_le _)) fun _ =>
          .pure rfl
    · exact .bind (Ends.modify fun _ => rfl) fun _ => .pure rfl
    · exact .fail _
  · rw [startChunk, if_pos (by simpa using hvalue)]
    exact .fail _

theorem hasIncoming_left {b : BodySocket} (hb : Closing sends b.sock)
    (hunknown : ¬ (0 < b.body.incoming ∨ b.body.ended = true)) :
    Coro.Left (fun b => Closing sends b.sock) (fun b => b.sock.pending.length)
      (∃ i, sends i = .stalled) (fun _ => 1) b.sock.pending.length (hasIncoming.run b) := by
  have hline : Ends sends BodySocket.sock (onSocket readHttpLine) fun line =>
      if line.received then 1 else 0 := onSocket_ends CppEvent.readHttpLine_ends
  have hread : Ends sends BodySocket.sock
      (onSocket readHttpLine >>= fun line => if line.isLastLine then
        onSocket readHttpLine >>= startChunk else startChunk line) fun _ => 1 := by
    refine .bind hline fun line => ?_
    by_cases hlast : line.isLastLine = true
    · have hreceived : line.received = true := line.received_of_isLastLine hlast
      rw [if_pos hlast, if_pos hreceived]
      exact .bind hline fun line' => (startChunk_ends line').mono fun _ => by omega
    · rw [if_neg hlast]
      exact startChunk_ends line
  rw [hasIncoming, Coro.run_get_bind, if_neg hunknown]
  exact hread b hb

theorem hasIncoming_ends : Ends sends BodySocket.sock hasIncoming fun _ => 0 := by
  intro b hb
  by_cases hknown : 0 < b.body.incoming ∨ b.body.ended = true
  · rw [hasIncoming, Coro.run_get_bind, if_pos hknown]
    exact ⟨hb, Nat.le_refl _⟩
  · exact (hasIncoming_left hb hknown).mono (fun _ => Nat.le_succ _) (Nat.le_refl _)

theorem startChunk_returned {line : HttpLine} {b b' : BodySocket} {more : Bool}
    (h : (startChunk line).run b = (.returned more, b')) (hmore : more = true) :
    0 < b'.body.incoming := by
  simp only [startChunk] at h
  split at h
  · cases h
  · split at h
    · obtain ⟨u, b₁, -, h⟩ := Coro.returned_of_bind h
      obtain ⟨l, b₂, -, h⟩ := Coro.returned_of_bind h
      cases h
      cases hmore
    · rename_i n rest hne hparse
      obtain ⟨u, b₁, hset, h⟩ := Coro.returned_of_bind h
      cases hset
      cases h
      exact Nat.pos_of_ne_zero hne
    · cases h

theorem hasIncoming_returned {b b' : BodySocket} {more : Bool}
    (h : hasIncoming.run b = (.returned more, b')) (hmore : more = true) :
    0 < b'.body.incoming := by
  rw [hasIncoming, Coro.run_get_bind] at h
  split at h
  · cases h
    exact of_decide_eq_true hmore
  · obtain ⟨line, b₁, -, h⟩ := Coro.returned_of_bind h
    split at h
    · obtain ⟨line', b₂, -, h⟩ := Coro.returned_of_bind h
      exact startChunk_returned h hmore
    · exact startChunk_returned h hmore

variable {γ : Type} {op : γ → Nat → Coro Socket Exn γ}

/-- A round of a read or a `skip` that is followed by another has taken a byte. -/
theorem transferRound_ends (hop : ∀ acc n, Ends sends id (op acc n) fun _ => n) (size : Int)
    (acc : γ × Nat) :
    Ends sends BodySocket.sock (transferRound op size acc) (Coro.roundCost fun _ => 0) := by
  by_cases hmore : (acc.2 : Int) < size
  · intro b hb
    have hinc := hasIncoming_ends b hb
    rw [transferRound, transferRoundOf, if_pos hmore, Coro.run_bind]
    rcases hrun : hasIncoming.run b with ⟨o, b₁⟩
    rw [hrun] at hinc
    cases o with
    | returned more =>
      cases more with
      | true =>
        have hpos := hasIncoming_returned hrun rfl
        have hn : 0 < min (size - acc.2).toNat b₁.body.incoming := lt_min (by omega) hpos
        have htake : Ends sends BodySocket.sock
            (do
              let got ← onSocket (op acc.1 (min (size - acc.2).toNat b₁.body.incoming))
              Coro.modify fun b => { b with body := { b.body with
                incoming := b.body.incoming - min (size - acc.2).toNat b₁.body.incoming } }
              pure (.inl (got, acc.2 + min (size - acc.2).toNat b₁.body.incoming)))
            (Coro.roundCost fun _ : γ × Nat => 0) :=
          .bind (onSocket_ends (hop _ _)) fun got => .bind (Ends.modify fun _ => rfl) fun _ =>
            .pure (by rw [Nat.sub_zero]; exact Nat.sub_eq_zero_of_le hn)
        exact (htake b₁ hinc.1).mono (fun _ => Nat.add_le_add_right hinc.2 _) hinc.2
      | false => exact hinc
    | threw e => exact hinc
    | suspended => exact hinc
    | undefined => exact hinc
  · rw [transferRound, transferRoundOf, if_neg hmore]
    exact .pure rfl

theorem transfer_ends (hop : ∀ acc n, Ends sends id (op acc n) fun _ => n) (size : Int) (init : γ) :
    Ends sends BodySocket.sock (transfer op size init) fun _ => 0 :=
  .loop (transferRound_ends hop size) (fun _ => Nat.lt_succ_self _) _

theorem readInto_ends (dest : Bytes) (size : Int) :
    Ends sends BodySocket.sock (readInto dest size) fun _ => 0 :=
  transfer_ends (fun _ n => .bind (Socket.readInto_ends n) fun _ => .pure (Nat.sub_self n)) size dest

theorem read_ends (size : Int) : Ends sends BodySocket.sock (read size) fun _ => 0 :=
  transfer_ends (fun _ n => .bind (Socket.read_ends n) fun _ => .pure (Nat.sub_self n)) size []

theorem readIntoStoring_ends (dest : Bytes) (size : Int) :
    Ends sends BodySocket.sock (readIntoStoring dest size) fun _ => 0 := by
  have h : Ends sends BodySocket.sock (readInto dest size) fun _ => 0 := readInto_ends dest size
  rw [← mapError_readIntoStoring] at h
  exact Coro.Spends.of_mapError h

theorem readStoring_ends (size : Int) :
    Ends sends BodySocket.sock (readStoring size) fun _ => 0 := by
  have h : Ends sends BodySocket.sock (read size) fun _ => 0 := read_ends size
  rw [← mapError_readStoring] at h
  exact Coro.Spends.of_mapError h

theorem skipRound_ends (u : Unit) (n : Nat) : Ends sends id (do
    let _ ← Socket.skip n true
    pure u) fun _ => n :=
  .bind (Socket.skip_ends n) fun _ => .pure (Nat.sub_self n)

theorem skip_ends (size : Int) : Ends sends BodySocket.sock (skip size) fun _ => 0 :=
  .bind (transfer_ends skipRound_ends size ()) fun _ => .pure rfl

end HttpBody

/-! ## Exchanges -/

namespace Exchange

theorem onBody_ends {t : Coro BodySocket ε α} {cost : α → Nat}
    (h : Ends sends BodySocket.sock t cost) : Ends sends Exchange.sock (onBody t) cost :=
  h.focus (fun _ => rfl) fun _ _ => rfl

theorem onOutput_ends {t : Coro OutputSocket Exn α} {cost : α → Nat}
    (h : Ends sends OutputSocket.sock t cost) : Ends sends Exchange.sock (onOutput t) cost :=
  h.focus (fun _ => rfl) fun _ _ => rfl

theorem perform_ends (op : ExchangeOp) : Ends sends Exchange.sock (perform op) fun _ => 0 := by
  cases op with
  | hasIncoming => exact .attempt (onBody_ends HttpBody.hasIncoming_ends)
  | readInto dest size => exact .attempt (onBody_ends (HttpBody.readIntoStoring_ends dest size))
  | read size =>
    exact .bind (.attempt (onBody_ends (HttpBody.readStoring_ends size))) fun _ =>
      .bind (Ends.modify fun _ => rfl) fun _ => .pure rfl
  | skip size => exact .attempt (onBody_ends (HttpBody.skip_ends size))
  | setStatus status => exact .bind (Ends.modify fun _ => rfl) fun _ => .pure rfl
  | setHeader name value => exact .bind (Ends.modify fun _ => rfl) fun _ => .pure rfl
  | setContentLength len =>
    refine .bind .get fun e => ?_
    cases e.res.setContentLength len with
    | error exn => exact .pure rfl
    | ok res => exact .bind (Ends.modify fun _ => rfl) fun _ => .pure rfl
  | write src => exact .attempt (onOutput_ends (HttpOutput.write_ends src))
  | finish => exact .attempt (onOutput_ends HttpOutput.finish_ends)

theorem serve_ends (p : Serve) : Ends sends Exchange.sock (serve p) fun _ => 0 :=
  .bind (.program perform_ends p) .ofExcept

theorem complete_ends (p : Serve) : Ends sends Exchange.sock (complete p) fun _ => 0 :=
  .bind (serve_ends p) fun _ => .bind (onOutput_ends HttpOutput.finish_ends) fun _ =>
    onBody_ends HttpBody.hasIncoming_ends

/-- `t` waits for nothing but a send where the bytes of the body are to come, and keeps to them. -/
def Stays (sends : Nat → SendCompletion) (rest : Bytes) (t : Coro Exchange ε α) : Prop :=
  t.Spends (fun e => InBody rest e ∧ Sending sends e.sock) (fun _ => 0)
    (∃ i, sends i = .stalled) fun _ => 0

variable {rest : Bytes}

theorem Stays.modify {f : Exchange → Exchange} (hbody : ∀ e, (f e).body = e.body)
    (hsock : ∀ e, (f e).sock = e.sock) :
    Stays sends rest (Coro.modify f : Coro Exchange ε Unit) := by
  refine Coro.Spends.modify (fun e he => ?_) fun _ => Nat.le_refl _
  rw [InBody, hbody, hsock]
  exact he

end Exchange

/-! ## The server -/

/-- A round over the header lines that is followed by another has taken a line. -/
theorem headerRound_ends (req : HttpRequest) :
    Ends sends id (headerRound req) (Coro.roundCost fun _ => 0) := by
  refine .bind readHttpLine_ends fun line => ?_
  by_cases hvalue : line.hasValue = true
  · have hreceived : line.received = true := line.received_of_hasValue hvalue
    rw [if_pos hvalue, if_pos hreceived]
    exact .ite (.pure rfl) (.pure rfl)
  · rw [if_neg hvalue]
    exact .pure (Nat.zero_sub _)

theorem readHeaders_ends (req : HttpRequest) : Ends sends id (readHeaders req) fun _ => 0 :=
  .loop headerRound_ends (fun _ => Nat.lt_succ_self _) req

namespace HttpServer

variable {E : Type}

theorem onSocket_ends {t : Coro Socket Exn α} {cost : α → Nat} (h : Ends sends id t cost) :
    Ends sends Connection.sock (onSocket (E := E) t) cost :=
  h.focus (fun _ => rfl) fun _ _ => rfl

theorem onExchange_ends (server : HttpServer E) (body : HttpBody) (calls : Exchange → List (Call E))
    {t : Coro Exchange Exn α} {cost : α → Nat} (h : Ends sends Exchange.sock t cost) :
    Ends sends Connection.sock (onExchange server body calls t) cost :=
  h.focus (fun _ => rfl) fun _ _ => rfl

theorem respond_ends (server : HttpServer E) (endpoint : Option E) (req : HttpRequest)
    (body : HttpBody) : Ends sends Connection.sock (respond server endpoint req body) fun _ => 0 := by
  cases endpoint with
  | none => exact onExchange_ends server body _ (Exchange.complete_ends notFound)
  | some e => exact onExchange_ends server body _ (Exchange.complete_ends (server.serve e req))

theorem handleRequest_ends (server : HttpServer E) (req : HttpRequest) (body : HttpBody) :
    Ends sends Connection.sock (handleRequest server req body) fun _ => 0 := by
  rw [handleRequest]
  split
  · exact .fail _
  · exact .bind (respond_ends server _ _ body) fun _ => .pure rfl

/-- A request on a kept connection has cost a request line. -/
theorem connectionRound_ends (server : HttpServer E) (u : Unit) :
    Ends sends Connection.sock (connectionRound server u) (Coro.roundCost fun _ => 0) := by
  refine .bind (onSocket_ends readHttpLine_ends) fun line => ?_
  by_cases hvalue : line.hasValue = true
  · have hreceived : line.received = true := line.received_of_hasValue hvalue
    have hcost : ∀ r : Unit ⊕ Unit, Coro.roundCost (fun _ => 0) r - 1 = 0 := by
      rintro (- | -) <;> rfl
    simp only [hvalue, hreceived, if_true, hcost, Bool.not_true]
    refine .ite (.pure rfl) (.ite (.pure rfl) (.bind (onSocket_ends (readHeaders_ends _))
      fun r => .ite (.pure rfl) ?_))
    cases r.2.framing with
    | none => exact .pure rfl
    | some body => exact handleRequest_ends server r.2 body
  · rw [if_pos (by simpa using hvalue)]
    exact .pure (Nat.zero_sub _)

theorem shutdown_ends : Ends sends id Socket.shutdown fun _ => 0 :=
  Coro.Spends.modify (fun _ hs => hs) fun _ => Nat.le_refl _

/-- Every byte stream that ends is handled to the end: `on_connection` shuts the socket down or throws,
and only a send that never completes can keep it. Each of its loops takes a byte in every round that
another round follows, and `has_incoming` takes one unless it knows the answer. -/
theorem onConnection_ends (server : HttpServer E) (c : Connection E)
    (hends : Input.EndsIn true c.sock.input.recvs) :
    (∃ o c', (onConnection server).run c = (o, c') ∧
      (o = .returned () ∧ c'.sock.isShutdown = true ∨ (∃ e, o = .threw e) ∨
        o = .suspended ∧ ∃ i, c.sock.output.sends i = .stalled)) ∧
    TakesEachRound id lineRound ∧ TakesEachRound id headerRound ∧
    TakesEachRound Connection.sock (connectionRound server) ∧
    (∀ size, TakesEachRound BodySocket.sock (HttpBody.transferRound (fun (u : Unit) n => do
      let _ ← Socket.skip n true
      pure u) size)) ∧
    ∀ b more b', Input.EndsIn true b.sock.input.recvs →
      HttpBody.hasIncoming.run b = (.returned more, b') →
      b'.sock.pending.length < b.sock.pending.length ∨
        b' = b ∧ (more = true ↔ 0 < b.body.incoming) := by
  refine ⟨?_, .of_ends fun _ => lineRound_ends, .of_ends fun _ => headerRound_ends,
    .of_ends fun _ => connectionRound_ends server,
    fun size => .of_ends fun _ => HttpBody.transferRound_ends HttpBody.skipRound_ends size, ?_⟩
  · have hspends : Ends c.sock.output.sends Connection.sock (onConnection server) fun _ => 0 :=
      .bind (.loop (connectionRound_ends server)
        (fun c => Nat.lt_succ_of_le c.sock.input.length_pending_le) ()) fun _ =>
          onSocket_ends shutdown_ends
    obtain ⟨o, c', hrun, ho⟩ := hspends.ends (Closing.start hends)
    refine ⟨o, c', hrun, ho.imp_left ?_⟩
    rintro ⟨u, rfl⟩
    obtain ⟨u', c₁, -, hshutdown⟩ := Coro.returned_of_bind hrun
    cases hshutdown
    exact ⟨rfl, rfl⟩
  · intro b more b' hends hrun
    by_cases hknown : 0 < b.body.incoming ∨ b.body.ended = true
    · rw [HttpBody.hasIncoming, Coro.run_get_bind, if_pos hknown] at hrun
      cases hrun
      exact .inr ⟨rfl, decide_eq_true_iff⟩
    · have hleft := HttpBody.hasIncoming_left (Closing.start hends) hknown
      rw [hrun] at hleft
      exact .inl hleft.2

/-- A server whose endpoint drains the body with `skip(LONG_MAX)` and writes a text. -/
def draining (text : Bytes) : HttpServer Unit :=
  { router := { HttpRouter.new with postEndpoint := some () }
    serve := fun _ _ => .call (.skip 9223372036854775807) fun _ => .call (.write text) .done
    traversal := id }

def brokenUpload : Connection Unit :=
  { sock := Socket.new
      [.data { bytes := ascii "POST / HTTP/1.1\r\nTransfer-Encoding: chunked\r",
               nonempty := by decide, length_le := by decide },
       .data { bytes := ascii "\n\r\n2\r\nab\r\nxy", nonempty := by decide,
               length_le := by decide },
       .closed]
      fun _ => .accepted 0
    calls := [] }

theorem onConnection_ends_broken :
    ∃ o c', (onConnection (draining (ascii "done"))).run brokenUpload = (o, c') ∧
      (o = .returned () ∧ c'.sock.isShutdown = true ∨ (∃ e, o = .threw e) ∨
        o = .suspended ∧ ∃ i, brokenUpload.sock.output.sends i = .stalled) :=
  (onConnection_ends (draining (ascii "done")) brokenUpload rfl).1

end HttpServer

end CppEvent
