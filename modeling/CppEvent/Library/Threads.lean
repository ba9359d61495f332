import CppEvent.Library.Transition

/-!
# Threads with call stacks

What coroutines that await one another are to a reader of their source: threads. A thread is a body
that runs, or waits for an operation, with the callers that its result goes back to. A body can call
another and wait for its result, or start another as a thread of its own, which runs before anything
else does until it first waits or ends; the thread is then left to itself (`detach`) or is cancelled
if it has not ended (`discard`). Only one thread runs at a time, and nothing interrupts it.

Every invocation of a body has a name, by which it is resumed when its operation completes.
-/

namespace Threads

open Transition

/-- What becomes of a thread that a body has started. -/
inductive Mode where
  | detach
  | discard
  deriving DecidableEq, Repr

/-- What a body does next, and how it goes on. -/
inductive Instr (Code Op R X : Type) where
  | step (next : Code)
  | finish (result : X)
  | await (op : Op) (next : R → Code)
  | call (callee : Code) (next : X → Code)
  | spawn (mode : Mode) (callee next : Code)

/-- A language of bodies over a shared state. A body that is run knows its name, which it can leave with
what it waits for; `cancel` is what an operation does when the invocation that waits for it is gone.
`event` is what happens while nothing runs, with the invocation that it resumes, if any. -/
structure Language (σ Id Code Op R X : Type) where
  exec : Id → Code → σ → Instr Code Op R X × σ
  cancel : Op → Id → σ → σ
  event : σ → Option (Id × R) → σ → Prop

variable {σ Id Code Op R X : Type}

structure Caller (Id Code X : Type) where
  id : Id
  next : X → Code

/-- What a thread that does not run has come to. -/
inductive Tip (Code Op R X : Type) where
  | waiting (op : Op) (next : R → Code)
  | finished (result : X)

/-- A thread that does not run, its innermost invocation and the callers of that. A thread that is not
`linked` is nobody's any more. -/
structure Thread (Id Code Op R X : Type) where
  tip : Id
  state : Tip Code Op R X
  callers : List (Caller Id Code X)
  linked : Bool

structure Active (Id Code X : Type) where
  tip : Id
  code : Code
  callers : List (Caller Id Code X)
  linked : Bool

/-- A thread that has started another and goes on when that one waits or has ended. -/
structure Spawner (Id Code X : Type) where
  tip : Id
  mode : Mode
  child : Id
  next : Code
  callers : List (Caller Id Code X)
  linked : Bool

def root (tip : Id) (callers : List (Caller Id Code X)) : Id :=
  match callers with
  | [] => tip
  | g :: gs => root g.id gs

/-- All there is: `spawners` wait for what runs or has just stopped, the innermost first. -/
structure State (σ Id Code Op R X : Type) where
  shared : σ
  running : Option (Active Id Code X)
  spawners : List (Spawner Id Code X)
  threads : List (Thread Id Code Op R X)

def Active.root (a : Active Id Code X) : Id := Threads.root a.tip a.callers

def Spawner.root (sp : Spawner Id Code X) : Id := Threads.root sp.tip sp.callers

namespace Thread

def root (t : Thread Id Code Op R X) : Id := Threads.root t.tip t.callers

/-- The shared state once the thread is gone. -/
def cancelled (t : Thread Id Code Op R X) (lang : Language σ Id Code Op R X) (s : σ) : σ :=
  match t.state with
  | .waiting op _ => lang.cancel op t.tip s
  | .finished _ => s

end Thread

def names (tip : Id) (callers : List (Caller Id Code X)) : List Id := tip :: callers.map Caller.id

namespace State

variable (s : State σ Id Code Op R X)

def names : List Id :=
  (s.running.toList.flatMap fun a => Threads.names a.tip a.callers) ++
    (s.spawners.flatMap fun sp => Threads.names sp.tip sp.callers) ++
      s.threads.flatMap fun t => Threads.names t.tip t.callers

end State

/-- What is seen of a step from outside. -/
inductive Label (Id Code R : Type) where
  | internal
  | event (resumed : Option (Id × R))
  | start (id : Id) (body : Code)
  | unlink (id : Id)
  | destroy (id : Id)

def Label.isInternal : Label Id Code R → Bool
  | .internal => true
  | _ => false

def State.new (shared : σ) : State σ Id Code Op R X :=
  { shared := shared, running := none, spawners := [], threads := [] }

/-- The steps. While nothing runs an event may come, a thread may be started, given up or destroyed. -/
inductive Step (lang : Language σ Id Code Op R X) :
    State σ Id Code Op R X → Label Id Code R → State σ Id Code Op R X → Prop
  | step (s) (a : Active Id Code X) (next : Code) (shared : σ) (hrunning : s.running = some a)
      (hexec : lang.exec a.tip a.code s.shared = (.step next, shared)) :
      Step lang s .internal { s with shared := shared, running := some { a with code := next } }
  | return (s) (a : Active Id Code X) (result : X) (g : Caller Id Code X)
      (gs : List (Caller Id Code X)) (shared : σ) (hrunning : s.running = some a)
      (hexec : lang.exec a.tip a.code s.shared = (.finish result, shared))
      (hcallers : a.callers = g :: gs) :
      Step lang s .internal
        { s with shared := shared, running := some ⟨g.id, g.next result, gs, a.linked⟩ }
  | finish (s) (a : Active Id Code X) (result : X) (shared : σ) (hrunning : s.running = some a)
      (hexec : lang.exec a.tip a.code s.shared = (.finish result, shared)) (hcallers : a.callers = [])
      (hlinked : a.linked = true) :
      Step lang s .internal
        { s with shared := shared, running := none,
                 threads := ⟨a.tip, .finished result, [], true⟩ :: s.threads }
  | vanish (s) (a : Active Id Code X) (result : X) (shared : σ) (hrunning : s.running = some a)
      (hexec : lang.exec a.tip a.code s.shared = (.finish result, shared)) (hcallers : a.callers = [])
      (hlinked : a.linked = false) :
      Step lang s .internal { s with shared := shared, running := none }
  | await (s) (a : Active Id Code X) (op : Op) (next : R → Code) (shared : σ)
      (hrunning : s.running = some a)
      (hexec : lang.exec a.tip a.code s.shared = (.await op next, shared)) :
      Step lang s .internal
        { s with shared := shared, running := none,
                 threads := ⟨a.tip, .waiting op next, a.callers, a.linked⟩ :: s.threads }
  | call (s) (a : Active Id Code X) (callee : Code) (next : X → Code) (shared : σ) (b : Id)
      (hrunning : s.running = some a)
      (hexec : lang.exec a.tip a.code s.shared = (.call callee next, shared))
      (hfresh : b ∉ s.names) :
      Step lang s .internal
        { s with shared := shared, running := some ⟨b, callee, ⟨a.tip, next⟩ :: a.callers, a.linked⟩ }
  | spawn (s) (a : Active Id Code X) (mode : Mode) (callee next : Code) (shared : σ) (b : Id)
      (hrunning : s.running = some a)
      (hexec : lang.exec a.tip a.code s.shared = (.spawn mode callee next, shared))
      (hfresh : b ∉ s.names) :
      Step lang s .internal
        { s with shared := shared, running := some ⟨b, callee, [], true⟩,
                 spawners := ⟨a.tip, mode, b, next, a.callers, a.linked⟩ :: s.spawners }
  | detached (s) (sp : Spawner Id Code X) (sps : List (Spawner Id Code X))
      (t : Thread Id Code Op R X) (ts : List (Thread Id Code Op R X)) (hrunning : s.running = none)
      (hspawners : s.spawners = sp :: sps) (hmode : sp.mode = .detach)
      (hthreads : s.threads.Perm (t :: ts)) (hchild : t.root = sp.child) :
      Step lang s .internal
        { s with running := some ⟨sp.tip, sp.next, sp.callers, sp.linked⟩, spawners := sps,
                 threads := { t with linked := false } :: ts }
  | discarded (s) (sp : Spawner Id Code X) (sps : List (Spawner Id Code X))
      (t : Thread Id Code Op R X) (ts : List (Thread Id Code Op R X)) (hrunning : s.running = none)
      (hspawners : s.spawners = sp :: sps) (hmode : sp.mode = .discard)
      (hthreads : s.threads.Perm (t :: ts)) (hchild : t.root = sp.child) :
      Step lang s .internal
        { shared := t.cancelled lang s.shared, running := some ⟨sp.tip, sp.next, sp.callers, sp.linked⟩,
          spawners := sps, threads := ts }
  | event (s) (shared : σ) (hrunning : s.running = none) (hspawners : s.spawners = [])
      (hevent : lang.event s.shared none shared) :
      Step lang s (.event none) { s with shared := shared }
  | resume (s) (t : Thread Id Code Op R X) (ts : List (Thread Id Code Op R X)) (op : Op)
      (next : R → Code) (r : R) (shared : σ) (hrunning : s.running = none)
      (hspawners : s.spawners = []) (hevent : lang.event s.shared (some (t.tip, r)) shared)
      (hthreads : s.threads.Perm (t :: ts)) (hstate : t.state = .waiting op next) :
      Step lang s (.event (some (t.tip, r)))
        { s with shared := shared, running := some ⟨t.tip, next r, t.callers, t.linked⟩, threads := ts }
  | start (s) (b : Id) (body : Code) (hrunning : s.running = none) (hspawners : s.spawners = [])
      (hfresh : b ∉ s.names) :
      Step lang s (.start b body) { s with running := some ⟨b, body, [], true⟩ }
  | unlink (s) (t : Thread Id Code Op R X) (ts : List (Thread Id Code Op R X))
      (hrunning : s.running = none) (hspawners : s.spawners = [])
      (hthreads : s.threads.Perm (t :: ts)) (hlinked : t.linked = true) :
      Step lang s (.unlink t.root) { s with threads := { t with linked := false } :: ts }
  | destroy (s) (t : Thread Id Code Op R X) (ts : List (Thread Id Code Op R X))
      (hrunning : s.running = none) (hspawners : s.spawners = [])
      (hthreads : s.threads.Perm (t :: ts)) (hlinked : t.linked = true) :
      Step lang s (.destroy t.root) { s with shared := t.cancelled lang s.shared, threads := ts }

/-! ## Names are not used twice -/

variable {lang : Language σ Id Code Op R X} {s s' : State σ Id Code Op R X}

theorem names_threads_perm {ts ts' : List (Thread Id Code Op R X)} (h : ts.Perm ts') :
    (ts.flatMap fun t => names t.tip t.callers).Perm (ts'.flatMap fun t => names t.tip t.callers) :=
  h.flatMap_right _

theorem Step.names {a : Label Id Code R} (h : Step lang s a s') :
    (∃ b, b ∉ s.names ∧ s'.names.Perm (b :: s.names)) ∨ s'.names.Subperm s.names := by
  cases h with
  | step a next shared hrunning hexec =>
    right
    simp only [State.names, hrunning, Option.toList_some, List.flatMap_singleton]
    exact List.Subperm.refl _
  | «return» a result g gs shared hrunning hexec hcallers =>
    right
    simp only [State.names, hrunning, Option.toList_some, List.flatMap_singleton, hcallers, Threads.names,
      List.map_cons]
    exact (List.sublist_cons_self _ _).subperm
  | finish a result shared hrunning hexec hcallers hlinked =>
    right
    simp only [State.names, hrunning, Option.toList_some, Option.toList_none, hcallers, Threads.names,
      List.flatMap_nil, List.flatMap_cons, List.nil_append, List.append_assoc]
    exact (List.perm_append_comm_assoc _ _ _).subperm
  | vanish a result shared hrunning hexec hcallers hlinked =>
    right
    simp only [State.names, hrunning, Option.toList_none, List.flatMap_nil, List.nil_append,
      List.append_assoc]
    exact (List.sublist_append_right _ _).subperm
  | await a op next shared hrunning hexec =>
    right
    simp only [State.names, hrunning, Option.toList_some, Option.toList_none, List.flatMap_nil,
      List.flatMap_cons, List.nil_append, List.append_assoc]
    exact (List.perm_append_comm_assoc _ _ _).subperm
  | call a callee next shared b hrunning hexec hfresh =>
    refine .inl ⟨b, hfresh, ?_⟩
    simp only [State.names, hrunning, Option.toList_some, List.flatMap_singleton]
    exact List.Perm.refl _
  | spawn a mode callee next shared b hrunning hexec hfresh =>
    refine .inl ⟨b, hfresh, ?_⟩
    simp only [State.names, hrunning, Option.toList_some, List.flatMap_cons, List.append_assoc]
    exact List.Perm.refl _
  | detached sp sps t ts hrunning hspawners hmode hthreads hchild =>
    right
    simp only [State.names, hrunning, hspawners, Option.toList_some, Option.toList_none, List.flatMap_nil,
      List.nil_append, List.flatMap_cons, List.append_assoc]
    exact ((((names_threads_perm hthreads).symm).append_left _).append_left _).subperm
  | discarded sp sps t ts hrunning hspawners hmode hthreads hchild =>
    right
    simp only [State.names, hrunning, hspawners, Option.toList_some, Option.toList_none, List.flatMap_nil,
      List.nil_append, List.flatMap_cons, List.append_assoc]
    refine (List.subperm_append_left _).mpr ((List.subperm_append_left _).mpr ?_)
    exact (List.sublist_append_right _ _).subperm.trans (names_threads_perm hthreads).symm.subperm
  | event shared hrunning hspawners hevent => exact .inr (List.Subperm.refl _)
  | resume t ts op next r shared hrunning hspawners hevent hthreads hstate =>
    right
    simp only [State.names, hrunning, hspawners, Option.toList_some, Option.toList_none,
      List.flatMap_singleton, List.flatMap_nil, List.nil_append, List.append_nil]
    exact (names_threads_perm hthreads).symm.subperm
  | start b body hrunning hspawners hfresh =>
    refine .inl ⟨b, hfresh, ?_⟩
    simp only [State.names, hrunning, Option.toList_some, Option.toList_none, List.flatMap_singleton,
      List.flatMap_nil, List.nil_append]
    exact List.Perm.refl _
  | unlink t ts hrunning hspawners hthreads hlinked =>
    right
    simp only [State.names]
    exact ((names_threads_perm hthreads).symm.append_left _).subperm
  | destroy t ts hrunning hspawners hthreads hlinked =>
    right
    simp only [State.names]
    refine (List.subperm_append_left _).mpr ?_
    exact (List.sublist_append_right _ _).subperm.trans (names_threads_perm hthreads).symm.subperm

theorem tip_ne (h : s.names.Nodup) {t : Thread Id Code Op R X} {ts : List (Thread Id Code Op R X)}
    (hthreads : s.threads.Perm (t :: ts)) {t' : Thread Id Code Op R X} (ht' : t' ∈ ts) :
    t'.tip ≠ t.tip := by
  have hnames := (names_threads_perm hthreads).nodup_iff.mp (List.nodup_append.mp h).2.1
  rw [List.flatMap_cons] at hnames
  intro htip
  refine (List.nodup_append.mp hnames).2.2 t.tip List.mem_cons_self t'.tip ?_ htip.symm
  exact List.mem_flatMap.mpr ⟨t', ht', List.mem_cons_self⟩

theorem tip_ne_running (h : s.names.Nodup) {a : Active Id Code X} (hrunning : s.running = some a)
    {t : Thread Id Code Op R X} (ht : t ∈ s.threads) : t.tip ≠ a.tip := by
  rw [State.names, hrunning, Option.toList_some, List.flatMap_singleton, List.append_assoc] at h
  intro htip
  refine (List.nodup_append.mp h).2.2 a.tip List.mem_cons_self t.tip ?_ htip.symm
  exact List.mem_append_right _ (List.mem_flatMap.mpr ⟨t, ht, List.mem_cons_self⟩)

end Threads
