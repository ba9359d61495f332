import CppEvent.Library.Memory
import CppEvent.Library.Threads

/-!
# `task`

The frames of the coroutines of `task.hpp`, linked by the handles that `suspended_coro` keeps. The
body of a coroutine starts at once, on top of its caller (`initial_suspend`). The caller awaits the
task that it gets: if the body has ended it takes the result, and else it leaves its handle with the
callee and is suspended. A body that ends leaves its frame suspended (`final_suspend`) and transfers
control to whoever has left a handle with it. The frame goes with its `task`, or, once it is unlinked,
at its end.

Bodies, the operations they await and the state they share are left abstract (`Language`).
-/

namespace CppEvent

open Threads Transition

/-- Where a coroutine stands. In `starting` and `spawning` it is in the call of another coroutine, and
has not seen the task yet. -/
inductive FrameState (Id Code Op R X : Type) where
  | running (code : Code)
  | starting (callee : Id) (next : X → Code)
  | awaitingTask (callee : Id) (next : X → Code)
  | awaitingOp (op : Op) (next : R → Code)
  | spawning (mode : Mode) (child : Id) (next : Code)
  | finalSuspended (result : X)

/-- A coroutine frame, with `m_outer` and `m_linked` of its promise; `m_linked` is true of a `task<T>`.
The result is the value or the exception of the promise. -/
structure CoroFrame (Id Code Op R X : Type) where
  state : FrameState Id Code Op R X
  outer : Option Id
  linked : Bool

/-- The frames, and the coroutines that have control, the one that runs in front: each is resumed or
called by the one behind it. -/
structure Frames (σ Id Code Op R X : Type) where
  shared : σ
  frames : List (Id × CoroFrame Id Code Op R X)
  native : List Id

variable {σ Id Code Op R X : Type}

/-- `get_return_object` and `initial_suspend`. -/
def CoroFrame.new (code : Code) : CoroFrame Id Code Op R X where
  state := .running code
  outer := none
  linked := true

namespace Frames

def new (shared : σ) : Frames σ Id Code Op R X := { shared := shared, frames := [], native := [] }

variable [DecidableEq Id]

/-- `final_suspend`: a linked frame stays, and gives control to `m_outer.retrieve_handle()`, which does
nothing if no handle was stored; an unlinked one is gone. -/
def finalSuspend (c : Frames σ Id Code Op R X) (f : Id) (fr : CoroFrame Id Code Op R X) (rest : List Id)
    (result : X) (shared : σ) : Frames σ Id Code Op R X :=
  if fr.linked then
    { shared := shared
      frames := Memory.write c.frames f { fr with state := .finalSuspended result, outer := none }
      native := fr.outer.toList ++ rest }
  else { shared := shared, frames := Memory.free c.frames f, native := rest }

/-- `await_resume` of the task of `callee`, which is then destroyed; `none` where it has no result. -/
def awaitResume (c : Frames σ Id Code Op R X) (f : Id) (fr : CoroFrame Id Code Op R X) (callee : Id)
    (next : X → Code) : Option (Frames σ Id Code Op R X) :=
  match Memory.read c.frames callee with
  | some { state := .finalSuspended result, .. } =>
      some { c with
        frames := Memory.free
          (Memory.write c.frames f { fr with state := .running (next result) }) callee }
  | _ => none

def awaitSuspend (c : Frames σ Id Code Op R X) (f : Id) (fr : CoroFrame Id Code Op R X) (callee : Id)
    (g : CoroFrame Id Code Op R X) (next : X → Code) (rest : List Id) : Frames σ Id Code Op R X :=
  { c with
    frames := Memory.write (Memory.write c.frames callee { g with outer := some f }) f
      { fr with state := .awaitingTask callee next }
    native := rest }

/-- `m_handle.destroy()`, with the tasks and awaiters that live in the frame. Only a suspended
coroutine can be destroyed. -/
def destroy (lang : Language σ Id Code Op R X) :
    Nat → Id → σ × List (Id × CoroFrame Id Code Op R X) → Option (σ × List (Id × CoroFrame Id Code Op R X))
  | 0, _, _ => none
  | n + 1, f, (shared, frames) =>
      match Memory.read frames f with
      | none => none
      | some fr =>
          match fr.state with
          | .awaitingTask callee _ =>
              (destroy lang n callee (shared, frames)).map fun p => (p.1, Memory.free p.2 f)
          | .awaitingOp op _ => some (lang.cancel op f shared, Memory.free frames f)
          | .finalSuspended _ => some (shared, Memory.free frames f)
          | _ => none

/-- The coroutine in front runs up to its next instruction or goes on behind a call. `b` is where the
next frame is allocated. `none` is undefined. -/
def step (lang : Language σ Id Code Op R X) (b : Id) (c : Frames σ Id Code Op R X) :
    Option (Frames σ Id Code Op R X) :=
  match c.native with
  | [] => none
  | f :: rest =>
      match Memory.read c.frames f with
      | none => none
      | some fr =>
          match fr.state with
          | .running code =>
              match lang.exec f code c.shared with
              | (.step next, shared) =>
                  some { c with
                    shared := shared
                    frames := Memory.write c.frames f { fr with state := .running next } }
              | (.finish result, shared) => some (c.finalSuspend f fr rest result shared)
              | (.await op next, shared) =>
                  some {
                    shared := shared
                    frames := Memory.write c.frames f { fr with state := .awaitingOp op next }
                    native := rest }
              | (.call callee next, shared) =>
                  some {
                    shared := shared
                    frames := Memory.alloc
                      (Memory.write c.frames f { fr with state := .starting b next }) b (.new callee)
                    native := b :: f :: rest }
              | (.spawn mode callee next, shared) =>
                  some {
                    shared := shared
                    frames := Memory.alloc
                      (Memory.write c.frames f { fr with state := .spawning mode b next }) b (.new callee)
                    native := b :: f :: rest }
          | .starting callee next =>
              match Memory.read c.frames callee with
              | none => none
              | some g =>
                  match g.state with
                  | .finalSuspended _ => c.awaitResume f fr callee next
                  | _ => some (c.awaitSuspend f fr callee g next rest)
          | .awaitingTask callee next => c.awaitResume f fr callee next
          | .spawning .detach child next =>
              match Memory.read c.frames child with
              | none => none
              | some g =>
                  some { c with
                    frames := Memory.write (Memory.write c.frames child { g with linked := false }) f
                      { fr with state := .running next } }
          | .spawning .discard child next =>
              (destroy lang c.frames.length child (c.shared, c.frames)).map fun p =>
                { c with shared := p.1, frames := Memory.write p.2 f { fr with state := .running next } }
          | .awaitingOp _ _ => none
          | .finalSuspended _ => none

def resume (c : Frames σ Id Code Op R X) (f : Id) (r : R) : Option (Frames σ Id Code Op R X) :=
  match Memory.read c.frames f with
  | some { state := .awaitingOp _ next, outer := outer, linked := linked } =>
      some { c with
        frames := Memory.write c.frames f { state := .running (next r), outer := outer, linked := linked }
        native := f :: c.native }
  | _ => none

/-- What can happen. A task that is held outside of any coroutine is that of a coroutine that none
awaits; while it is linked it can be unlinked or destroyed. -/
inductive Step (lang : Language σ Id Code Op R X) :
    Frames σ Id Code Op R X → Label Id Code R → Frames σ Id Code Op R X → Prop
  | internal (c c') (b : Id) (hfree : Memory.read c.frames b = none) (hstep : step lang b c = some c') :
      Step lang c .internal c'
  | event (c) (shared : σ) (hnative : c.native = []) (hevent : lang.event c.shared none shared) :
      Step lang c (.event none) { c with shared := shared }
  | resume (c c') (f : Id) (r : R) (shared : σ) (hnative : c.native = [])
      (hevent : lang.event c.shared (some (f, r)) shared)
      (hresume : Frames.resume { c with shared := shared } f r = some c') :
      Step lang c (.event (some (f, r))) c'
  | start (c) (b : Id) (body : Code) (hnative : c.native = []) (hfree : Memory.read c.frames b = none) :
      Step lang c (.start b body)
        { c with frames := Memory.alloc c.frames b (.new body), native := [b] }
  | unlink (c) (f : Id) (fr : CoroFrame Id Code Op R X) (hnative : c.native = [])
      (hread : Memory.read c.frames f = some fr) (houter : fr.outer = none)
      (hlinked : fr.linked = true) :
      Step lang c (.unlink f) { c with frames := Memory.write c.frames f { fr with linked := false } }
  | destroy (c) (f : Id) (fr : CoroFrame Id Code Op R X) (p : σ × List (Id × CoroFrame Id Code Op R X))
      (hnative : c.native = []) (hread : Memory.read c.frames f = some fr) (houter : fr.outer = none)
      (hlinked : fr.linked = true)
      (hdestroy : Frames.destroy lang c.frames.length f (c.shared, c.frames) = some p) :
      Step lang c (.destroy f) { c with shared := p.1, frames := p.2 }

end Frames

end CppEvent
