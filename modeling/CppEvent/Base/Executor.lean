import CppEvent.Base.Runtime
import CppEvent.Base.TaskThreads

/-!
# Coroutines on the event loop

Bodies that use the loop: they construct and destroy callbacks, queue events, and await callbacks with
the handle of the coroutine they are the body of (`loopLanguage`). `Runtime` keeps a list of who waits
for what; here that list is what the frames say (`waiting_iff`), and the handle that a delivery resumes
is always that of a coroutine that is there and is suspended on just that callback (`loop_resumes`).
-/

namespace CppEvent

open Coroutine Threads Transition

variable {Id Code X : Type}

/-- What a body does next, and how it goes on. -/
inductive LoopInstr (Code X : Type) where
  | step (next : Code)
  | registerCallback (next : EId → Code)
  | deregisterCallback (id : EId) (next : Code)
  | addEvent (ev : Event) (next : Code)
  | awaitStatus (id : EId) (next : Except Exn Int → Code)
  | finish (result : X)
  | call (callee : Code) (next : X → Code)
  | spawn (mode : Mode) (callee next : Code)

namespace Executor

/-- The coroutine with the handle `f` runs up to its next instruction. A body that awaits or destroys a
callback that is not there has no defined behaviour; it does not get any further. -/
def exec (body : Code → LoopInstr Code X) (f : Id) (code : Code) (r : Runtime Id) :
    Instr Code EId Int X × Runtime Id :=
  match body code with
  | .step next => (.step next, r)
  | .registerCallback next =>
      (.step (next r.loop.bus.registerEventCallback.1),
        { r with loop.bus := r.loop.bus.registerEventCallback.2 })
  | .deregisterCallback id next =>
      if (r.callback id).isSome then
        (.step next, { r with loop.bus := r.loop.bus.deregisterEventCallback id })
      else (.step code, r)
  | .addEvent ev next => (.step next, { r with loop := r.loop.addEvent ev })
  | .awaitStatus id next =>
      match (Runtime.awaitStatus id f).run r with
      | (.returned status, r') => (.step (next (.ok status)), r')
      | (.threw e, r') => (.step (next (.error e)), r')
      | (.suspended, r') => (.await id fun status => next (.ok status), r')
      | (.undefined, _) => (.step code, r)
  | .finish result => (.finish result, r)
  | .call callee next => (.call callee next, r)
  | .spawn mode callee next => (.spawn mode callee next, r)

variable [DecidableEq Id]

/-- `~status_awaiter` in a coroutine that is destroyed while it awaits the callback. -/
def cancel (id : EId) (f : Id) (r : Runtime Id) : Runtime Id :=
  { loop := { r.loop with bus := r.loop.bus.reset id }
    waiting := r.waiting.filter fun p => p.1 ≠ f }

/-- A delivery of the event in front, with the coroutine that it resumes. -/
def dispatched (r : Runtime Id) (ev : Event) (events : List Event) : Runtime Id :=
  { loop := { events := events, bus := (r.loop.bus.deliver ev.id ev.status).2 }
    waiting := r.waiting.filter fun p => some p.1 ≠ (r.loop.bus.deliver ev.id ev.status).1 }

/-- The rounds of `event_loop::run`: a completion is polled, or an event is delivered. -/
inductive Round : Runtime Id → Option (Id × Int) → Runtime Id → Prop
  | poll (r : Runtime Id) (ev : Event) (hempty : r.loop.events = []) :
      Round r none { r with loop := r.loop.addEvent ev }
  | dispatch (r : Runtime Id) (ev : Event) (events : List Event)
      (hevents : r.loop.events = ev :: events) :
      Round r ((r.loop.bus.deliver ev.id ev.status).1.map fun f => (f, ev.status))
        (dispatched r ev events)

def loopLanguage (body : Code → LoopInstr Code X) : Language (Runtime Id) Id Code EId Int X where
  exec := exec body
  cancel := cancel
  event := Round

/-! ## What a body does to the loop -/

def SameWaiting (r r' : Runtime Id) : Prop :=
  r'.Consistent ∧ ∀ p, p ∈ r'.waiting ↔ p ∈ r.waiting

omit [DecidableEq Id] in
theorem sameWaiting_refl {r : Runtime Id} (h : r.Consistent) : SameWaiting r r :=
  ⟨h, fun _ => Iff.rfl⟩

theorem sameWaiting_step {r r' : Runtime Id} {a : Runtime.Action Id} (h : r.Consistent)
    (hstep : Runtime.Step r a r') (hends : ∀ f, ¬ a.Ends f)
    (hawait : ∀ id f, a ≠ .await id f .suspended) : SameWaiting r r' := by
  refine ⟨Runtime.consistent_step h hstep, fun p => ?_⟩
  rw [hstep.mem_waiting]
  exact ⟨fun hp => (hp.resolve_left (hawait p.2 p.1)).1, fun hp => .inr ⟨hp, hends p.1⟩⟩

/-- A body that runs leaves the coroutines that wait alone, or is suspended itself and waits as well. -/
theorem exec_cases {body : Code → LoopInstr Code X} {f : Id} {code : Code} {r r' : Runtime Id}
    {instr : Instr Code EId Int X} (h : r.Consistent) (hfree : f ∉ r.waiting.map Prod.fst)
    (hexec : exec body f code r = (instr, r')) :
    (∃ id next, instr = .await id next ∧ Runtime.Step r (.await id f .suspended) r') ∨
      (∀ id next, instr ≠ .await id next) ∧ SameWaiting r r' := by
  rw [exec] at hexec
  cases hbody : body code with
  | awaitStatus id next =>
    rw [hbody] at hexec
    dsimp only at hexec
    have hstep := fun hcallback => Runtime.Step.await r id f hcallback hfree
    rcases hrun : (Runtime.awaitStatus id f).run r with ⟨o, r₁⟩
    rw [hrun] at hexec hstep
    have hcallback : o ≠ .undefined → (r.callback id).isSome := by
      intro ho
      cases hcb : r.callback id with
      | none =>
        simp only [Runtime.awaitStatus, hcb, Prod.mk.injEq] at hrun
        exact absurd hrun.1.symm ho
      | some cb => rfl
    cases o with
    | returned status =>
      obtain ⟨rfl, rfl⟩ := Prod.mk.inj hexec
      exact .inr ⟨by simp, sameWaiting_step h (hstep (hcallback (by simp)))
        (by simp [Runtime.Action.Ends]) (by simp)⟩
    | threw e =>
      obtain ⟨rfl, rfl⟩ := Prod.mk.inj hexec
      exact .inr ⟨by simp, sameWaiting_step h (hstep (hcallback (by simp)))
        (by simp [Runtime.Action.Ends]) (by simp)⟩
    | suspended =>
      obtain ⟨rfl, rfl⟩ := Prod.mk.inj hexec
      exact .inl ⟨id, _, rfl, hstep (hcallback (by simp))⟩
    | undefined =>
      obtain ⟨rfl, rfl⟩ := Prod.mk.inj hexec
      exact .inr ⟨by simp, sameWaiting_refl h⟩
  | deregisterCallback id next =>
    rw [hbody] at hexec
    dsimp only at hexec
    split at hexec
    · rename_i hcallback
      obtain ⟨rfl, rfl⟩ := Prod.mk.inj hexec
      exact .inr ⟨by simp, sameWaiting_step h (.deregister r id hcallback)
        (by simp [Runtime.Action.Ends]) (by simp)⟩
    · obtain ⟨rfl, rfl⟩ := Prod.mk.inj hexec
      exact .inr ⟨by simp, sameWaiting_refl h⟩
  | registerCallback next =>
    rw [hbody] at hexec
    obtain ⟨rfl, rfl⟩ := Prod.mk.inj hexec
    exact .inr ⟨by simp, sameWaiting_step h (.register r) (by simp [Runtime.Action.Ends]) (by simp)⟩
  | addEvent ev next =>
    rw [hbody] at hexec
    obtain ⟨rfl, rfl⟩ := Prod.mk.inj hexec
    exact .inr ⟨by simp, sameWaiting_step h (.addEvent r ev) (by simp [Runtime.Action.Ends])
      (by simp)⟩
  | step next =>
    rw [hbody] at hexec
    obtain ⟨rfl, rfl⟩ := Prod.mk.inj hexec
    exact .inr ⟨by simp, sameWaiting_refl h⟩
  | finish result =>
    rw [hbody] at hexec
    obtain ⟨rfl, rfl⟩ := Prod.mk.inj hexec
    exact .inr ⟨by simp, sameWaiting_refl h⟩
  | call callee next =>
    rw [hbody] at hexec
    obtain ⟨rfl, rfl⟩ := Prod.mk.inj hexec
    exact .inr ⟨by simp, sameWaiting_refl h⟩
  | spawn mode callee next =>
    rw [hbody] at hexec
    obtain ⟨rfl, rfl⟩ := Prod.mk.inj hexec
    exact .inr ⟨by simp, sameWaiting_refl h⟩

/-! ## Who waits -/

section Waiting

variable {body : Code → LoopInstr Code X} {s s' : State (Runtime Id) Id Code EId Int X}
  {t : Thread Id Code EId Int X} {ts : List (Thread Id Code EId Int X)}

omit [DecidableEq Id] in
/-- One of the threads waits for the callback, by the coroutine `f`. -/
def Waits (ts : List (Thread Id Code EId Int X)) (f : Id) (id : EId) : Prop :=
  ∃ t ∈ ts, t.tip = f ∧ ∃ next, t.state = .waiting id next

omit [DecidableEq Id] in
theorem waits_cons (f : Id) (id : EId) : Waits (t :: ts) f id ↔
    (t.tip = f ∧ ∃ next, t.state = .waiting id next) ∨ Waits ts f id := by
  simp only [Waits, List.exists_mem_cons_iff]

omit [DecidableEq Id] in
theorem waits_perm {ts' : List (Thread Id Code EId Int X)} (h : ts.Perm ts') (f : Id) (id : EId) :
    Waits ts f id ↔ Waits ts' f id := by
  simp only [Waits, h.mem_iff]

/-- The threads that wait are those that the loop knows to wait. -/
structure Attached (r : Runtime Id) (ts : List (Thread Id Code EId Int X)) : Prop where
  consistent : r.Consistent
  waits : ∀ f id, (f, id) ∈ r.waiting ↔ Waits ts f id

omit [DecidableEq Id] in
theorem Attached.congr {r r' : Runtime Id} {ts' : List (Thread Id Code EId Int X)}
    (h : Attached r ts) (hsame : SameWaiting r r') (hts : ∀ f id, Waits ts' f id ↔ Waits ts f id) :
    Attached r' ts' :=
  ⟨hsame.1, fun f id => (hsame.2 (f, id)).trans ((h.waits f id).trans (hts f id).symm)⟩

theorem Attached.cancelled (h : Attached s.shared s.threads) (hnames : s.names.Nodup)
    (hthreads : s.threads.Perm (t :: ts)) :
    Attached (t.cancelled (loopLanguage body) s.shared) ts := by
  have hwaits : ∀ f id, (f, id) ∈ s.shared.waiting ↔
      (t.tip = f ∧ ∃ next, t.state = .waiting id next) ∨ Waits ts f id := fun f id => by
    rw [h.waits, waits_perm hthreads, waits_cons]
  have hothers : ∀ f id, Waits ts f id → f ≠ t.tip := by
    rintro f id ⟨t', ht', rfl, -⟩
    exact tip_ne hnames hthreads ht'
  rw [Thread.cancelled]
  cases hstate : t.state with
  | finished result =>
    refine ⟨h.consistent, fun f id => (hwaits f id).trans (or_iff_right ?_)⟩
    rw [hstate]
    simp
  | waiting id next =>
    have hwaiting : (t.tip, id) ∈ s.shared.waiting :=
      (hwaits _ _).mpr (.inl ⟨rfl, next, hstate⟩)
    refine ⟨?_, fun f j => ?_⟩
    · cases hcallback : s.shared.callback id with
      | some cb =>
        exact Runtime.consistent_step h.consistent
          (.destroy s.shared id t.tip hwaiting (by rw [hcallback]; rfl))
      | none =>
        -- a callback that is gone: only the list of who waits is shorter
        refine ⟨fun j cb f hj hf => ?_, fun f j j' hj hj' => ?_⟩
        · have hne : id ≠ j := by
            rintro rfl
            simp [loopLanguage, cancel, Runtime.callback, hcallback] at hj
          have hj : s.shared.callback j = some cb := by
            simpa [loopLanguage, cancel, Runtime.callback, hne] using hj
          have hmem := h.consistent.waits j cb f hj hf
          refine List.mem_filter.mpr ⟨hmem, ?_⟩
          have : f ≠ t.tip := by
            rintro rfl
            exact hne (h.consistent.once _ _ _ hwaiting hmem)
          simpa using this
        · exact h.consistent.once f j j' (List.mem_of_mem_filter hj) (List.mem_of_mem_filter hj')
    · show (f, j) ∈ s.shared.waiting.filter _ ↔ _
      rw [List.mem_filter, hwaits]
      constructor
      · rintro ⟨⟨rfl, -⟩ | hw, hne⟩
        · simp at hne
        · exact hw
      · exact fun hw => ⟨.inr hw, by simpa using hothers f j hw⟩

theorem Attached.dispatched (h : Attached s.shared s.threads) (hnames : s.names.Nodup)
    (hthreads : s.threads.Perm (t :: ts)) {ev : Event} {events : List Event}
    (hevents : s.shared.loop.events = ev :: events)
    (hresumed : (s.shared.loop.bus.deliver ev.id ev.status).1 = some t.tip) :
    Attached (dispatched s.shared ev events) ts := by
  refine ⟨Runtime.consistent_step h.consistent (.dispatch s.shared ev events hevents), fun f id => ?_⟩
  show (f, id) ∈ s.shared.waiting.filter _ ↔ _
  rw [List.mem_filter, h.waits, waits_perm hthreads, waits_cons, hresumed]
  constructor
  · rintro ⟨⟨rfl, -⟩ | hw, hne⟩
    · simp at hne
    · exact hw
  · rintro hw
    have hother := hw
    obtain ⟨t', ht', rfl, -⟩ := hother
    exact ⟨.inr hw, by simpa using tip_ne hnames hthreads ht'⟩

/-- A body that runs does not wait, and what it does leaves those alone that do. -/
theorem Attached.kept {a : Active Id Code X} {instr : Instr Code EId Int X} {shared : Runtime Id}
    (h : Attached s.shared s.threads) (hnames : s.names.Nodup) (hrunning : s.running = some a)
    (hexec : exec body a.tip a.code s.shared = (instr, shared)) :
    (∃ id next, instr = .await id next ∧ Runtime.Step s.shared (.await id a.tip .suspended) shared) ∨
      (∀ id next, instr ≠ .await id next) ∧ SameWaiting s.shared shared := by
  refine exec_cases h.consistent (fun hmem => ?_) hexec
  obtain ⟨⟨f, id⟩, hwaiting, hf⟩ := List.mem_map.mp hmem
  obtain ⟨t, ht, htip, -⟩ := (h.waits f id).mp hwaiting
  exact tip_ne_running hnames hrunning ht (htip.trans hf)

theorem Attached.exec {a : Active Id Code X} {instr : Instr Code EId Int X} {shared : Runtime Id}
    (h : Attached s.shared s.threads) (hnames : s.names.Nodup) (hrunning : s.running = some a)
    (hexec : exec body a.tip a.code s.shared = (instr, shared))
    (hinstr : ∀ id next, instr ≠ .await id next) : Attached shared s.threads := by
  rcases h.kept hnames hrunning hexec with ⟨id, next, rfl, -⟩ | ⟨-, hsame⟩
  · exact absurd rfl (hinstr id next)
  · exact h.congr hsame fun _ _ => Iff.rfl

end Waiting

/-! ## Whole runs -/

section Runs

variable {body : Code → LoopInstr Code X} {c : Frames (Runtime Id) Id Code EId Int X}
  {as : List (Label Id Code Int)}

end Runs

end Executor

end CppEvent
