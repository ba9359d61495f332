import CppEvent.Net.Socket

/-!
# Streams that end

A peer that sends a stream and then closes, or sends nothing more (`EndsIn`). A full read of more
bytes than there are throws in the one case and waits in the other.
-/

namespace CppEvent

open Coroutine

namespace Input

/-- The recvs to come bring data, and behind it the peer's close, or nothing. -/
def EndsIn (closes : Bool) : List RecvCompletion → Prop
  | .data _ :: recvs => EndsIn closes recvs
  | .closed :: _ => closes = true
  | .failed _ _ :: _ => False
  | [] => closes = false

variable {closes : Bool}

theorem endsIn_map_data (segments : List Segment) (recvs : List RecvCompletion) :
    EndsIn closes (segments.map .data ++ recvs) ↔ EndsIn closes recvs := by
  induction segments with
  | nil => rfl
  | cons segment segments ih => exact ih

theorem Consumes.endsIn {s s' : Input} {bs : Bytes} (h : s.Consumes bs s')
    (hends : EndsIn closes s.recvs) : EndsIn closes s'.recvs := by
  obtain ⟨-, segments, hr, -⟩ := h
  rwa [hr, endsIn_map_data] at hends

/-- What an operation comes to that needs more than the stream has. -/
def Starved {α : Type} (closes : Bool) (o : Outcome Exn α) : Prop :=
  (∃ e, o = .threw e) ∨ o = .suspended ∧ closes = false

theorem Starved.bind {σ α β : Type} {t : Coro σ Exn α} {s : σ} (h : Starved closes (t.run s).1)
    (f : α → Coro σ Exn β) : Starved closes ((t >>= f).run s).1 := by
  rw [Coro.run_bind]
  rcases hrun : t.run s with ⟨a | e | _ | _, s'⟩
  all_goals rw [hrun] at h
  · rcases h with ⟨e, he⟩ | ⟨he, -⟩ <;> cases he
  · exact .inl ⟨e, rfl⟩
  · exact .inr ⟨rfl, h.elim (fun ⟨e, he⟩ => by cases he) And.right⟩
  · rcases h with ⟨e, he⟩ | ⟨he, -⟩ <;> cases he

theorem Starved.leave {α β : Type} {r : Outcome Exn (β ⊕ α)} (h : Starved closes r) :
    ∃ o, Coro.leave r = .inr o ∧ Starved closes o := by
  rcases h with ⟨e, rfl⟩ | ⟨rfl, hopen⟩
  · exact ⟨_, rfl, .inl ⟨e, rfl⟩⟩
  · exact ⟨_, rfl, .inr ⟨rfl, hopen⟩⟩

/-- A recv with a drained buffer brings data, or tells how the stream ends. -/
theorem recvIncoming_ends {s : Input} (hends : EndsIn closes s.recvs) (hu : s.buffer.unread = []) :
    (∃ (segment : Segment) (s' : Input),
        recvIncoming.run s = (.returned (segment.bytes.length : Int), s') ∧
        s'.buffer.unread = segment.bytes ∧ s.Consumes [] s' ∧ s'.recvs.length < s.recvs.length) ∨
      s.pending = [] ∧ ((recvIncoming.run s = (.returned 0, s.offer) ∧ closes = true) ∨
        ∃ s', recvIncoming.run s = (.suspended, s') ∧ closes = false) := by
  rcases hr : s.recvs with _ | ⟨segment | _ | ⟨errnum, hpos⟩, rest⟩
  · rw [hr] at hends
    refine .inr ⟨by rw [pending, hu, hr]; rfl,
      .inr ⟨{ s.offer with inFlight := s.inFlight + 1 }, ?_, hends⟩⟩
    simp only [recvIncoming, hr]
  · obtain ⟨s', hrun, hu', hr', hc⟩ := recvIncoming_data hr hu
    refine .inl ⟨segment, s', hrun, hu', hc, ?_⟩
    rw [hr', List.length_cons]
    omega
  · rw [hr] at hends
    refine .inr ⟨by rw [pending, hu, hr]; rfl, .inl ⟨?_, hends⟩⟩
    simp only [recvIncoming, hr]
  · rw [hr] at hends
    exact hends.elim

/-- A full read of more than the stream has; if the peer closes, the stream has been read to its end. -/
theorem consume_starves (name : String) {s : Input} {size : Nat} (hends : EndsIn closes s.recvs)
    (hlt : s.pending.length < size) : Starved closes ((consume name size true).run s).1 ∧
      (closes = true → EndsIn closes ((consume name size true).run s).2.recvs ∧
        ((consume name size true).run s).2.pending = []) := by
  obtain ⟨s₀, hrun, hu₀, hr₀, hc₀⟩ := takeBuffered_run s size
  have hshort : s.buffer.unread.length ≤ s.pending.length := by
    rw [pending, List.length_append]
    omega
  rw [consume, Coro.bind_returned _ hrun]
  -- between rounds all that has arrived has been taken, and it is not enough
  obtain ⟨o, s', hloop, hpost⟩ := Coro.loop_leaves (fun s => s.recvs.length + 1)
    (consumeRound name size true)
    (fun got s' => EndsIn closes s'.recvs ∧ s.Consumes got s' ∧ s'.buffer.unread = [])
    (fun o s' => Starved closes o ∧
      (closes = true → EndsIn closes s'.recvs ∧ s'.pending = []))
    (fun _ s' => s'.recvs.length) (s.buffer.unread.take size) s₀
    ⟨hc₀.endsIn hends, hc₀, by rw [hu₀, List.drop_eq_nil_iff]; omega⟩ (Nat.lt_succ_self _)
    (fun got s₁ hinv => by
      obtain ⟨hends₁, hc₁, hu₁⟩ := hinv
      have hpending := congrArg List.length hc₁.pending_eq
      rw [List.length_append] at hpending
      have hround : ¬ size ≤ got.length := by omega
      rw [consumeRound, if_neg hround]
      rcases recvIncoming_ends hends₁ hu₁ with ⟨segment, s₂, hrecv, hu₂, hc₂, hless⟩ |
        ⟨hnil, ⟨hrecv, -⟩ | ⟨s₂, hrecv, hopen⟩⟩
      · obtain ⟨s₃, htake, hu₃, hr₃, hc₃⟩ := takeBuffered_run s₂ (size - got.length)
        have hpos := List.length_pos_iff.mpr segment.nonempty
        have hc := hc₁.trans (hc₂.trans hc₃)
        have hlen := congrArg List.length hc₂.pending_eq
        rw [List.nil_append, pending.eq_def s₂, hu₂, List.length_append] at hlen
        refine .inl ⟨_, s₃, ?_, ⟨hc.endsIn hends, hc, ?_⟩, by rw [hr₃]; exact hless⟩
        · rw [Coro.bind_returned _ hrecv, if_neg (by omega), if_neg (by omega),
            Coro.bind_returned _ htake, Coro.run_pure]
          rfl
        · rw [hu₃, hu₂, List.drop_eq_nil_iff]
          omega
      · refine .inr ⟨.threw (.runtimeError (name ++ " failed: socket closed")), s₁.offer, _, ?_, rfl,
          .inl ⟨_, rfl⟩, fun _ => ⟨hends₁, hnil⟩⟩
        rw [Coro.bind_returned _ hrecv, if_neg (by omega), if_pos rfl, if_pos rfl, Coro.run_fail]
      · refine .inr ⟨_, _, _, Coro.bind_suspended _ hrecv, rfl, .inr ⟨rfl, hopen⟩, fun hclosed => ?_⟩
        rw [hopen] at hclosed
        cases hclosed)
  rw [hloop]
  exact hpost

theorem peek_ends {s : Input} (hends : EndsIn closes s.recvs) (hnil : s.pending = []) :
    (closes = true ∧ ∃ s', peek.run s = (.returned [], s') ∧ s.Consumes [] s') ∨
      ∃ s', peek.run s = (.suspended, s') ∧ closes = false := by
  obtain ⟨hu, -⟩ := List.append_eq_nil_iff.mp hnil
  rw [peek, Coro.run_get_bind, if_pos hu]
  rcases recvIncoming_ends hends hu with ⟨segment, s', -, hu', hc, -⟩ |
    ⟨-, ⟨hrecv, hclosed⟩ | ⟨s', hrecv, hopen⟩⟩
  · have hpending := hc.pending_eq
    rw [List.nil_append, hnil, pending, hu', eq_comm, List.append_eq_nil_iff] at hpending
    exact absurd hpending.1 segment.nonempty
  · refine .inl ⟨hclosed, s.offer, ?_, rfl, [], rfl, List.append_nil _⟩
    rw [Coro.bind_returned _ hrecv, if_neg (by omega), Coro.run_get_bind, Coro.run_pure]
    exact congrArg (fun bs => (Outcome.returned bs, s.offer)) hu
  · exact .inr ⟨s', Coro.bind_suspended _ hrecv, hopen⟩

end Input

end CppEvent
