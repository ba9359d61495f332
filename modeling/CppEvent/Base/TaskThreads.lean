import CppEvent.Base.Task

/-!
# What the frames of tasks stand for

The frames behave as threads with call stacks do (`tasks_refine`), and no handle is ever resumed, asked
for its result or destroyed that is not in the right state for it (`tasks_defined`).
-/

namespace CppEvent

open Threads Transition

variable {σ Id Code Op R X : Type}

/-! ## Threads as frames

A caller with the mark `true` has left its handle with its callee; one without is still in the call, and
has control of its own behind the callee. -/

abbrev Callers (Id Code X : Type) := List (Caller Id Code X × Bool)

namespace Callers

def outer : Callers Id Code X → Option Id
  | (g, true) :: _ => some g.id
  | _ => none

/-- `m_linked` of the callee: that of the thread, if nobody has called it. -/
def linked (l : Bool) : Callers Id Code X → Bool
  | [] => l
  | _ => true

def calling : Callers Id Code X → List Id
  | [] => []
  | (_, true) :: gs => calling gs
  | (g, false) :: gs => g.id :: calling gs

/-- The frames of the callers of `callee`, in a thread that is linked or not. -/
def cells (Op R : Type) (l : Bool) (callee : Id) :
    Callers Id Code X → List (Id × CoroFrame Id Code Op R X)
  | [] => []
  | (g, mark) :: gs =>
      (g.id, { state := if mark then .awaitingTask callee g.next else .starting callee g.next
               outer := outer gs, linked := linked l gs }) :: cells Op R l g.id gs

/-- All have left their handle. -/
def all (gs : List (Caller Id Code X)) : Callers Id Code X := gs.map fun g => (g, true)

end Callers

def threadCells (l : Bool) (tip : Id) (state : FrameState Id Code Op R X) (gs : Callers Id Code X) :
    List (Id × CoroFrame Id Code Op R X) :=
  (tip, { state := state, outer := gs.outer, linked := gs.linked l }) :: gs.cells Op R l tip

/-- The state of the frame at the tip of a thread that does not run. -/
def tipState : Tip Code Op R X → FrameState Id Code Op R X
  | .waiting op next => .awaitingOp op next
  | .finished result => .finalSuspended result

/-- The frames of a thread that does not run and has come to rest. -/
def restingCells (t : Thread Id Code Op R X) : List (Id × CoroFrame Id Code Op R X) :=
  threadCells t.linked t.tip (tipState t.state) (Callers.all t.callers)

/-- A thread that has started another, with its callers marked. -/
structure Spawning (Id Code X : Type) where
  tip : Id
  mode : Mode
  child : Id
  next : Code
  callers : Callers Id Code X
  linked : Bool

namespace Spawning

def spawner (sp : Spawning Id Code X) : Spawner Id Code X :=
  { tip := sp.tip, mode := sp.mode, child := sp.child, next := sp.next,
    callers := sp.callers.map Prod.fst, linked := sp.linked }

def cells (Op R : Type) (sp : Spawning Id Code X) : List (Id × CoroFrame Id Code Op R X) :=
  threadCells sp.linked sp.tip (.spawning sp.mode sp.child sp.next) sp.callers

def native (sp : Spawning Id Code X) : List Id := sp.tip :: sp.callers.calling

/-- Each spawner has started the thread in front of it, which is linked. -/
def Nested : List (Spawning Id Code X) → Id → Bool → Prop
  | [], _, _ => True
  | sp :: sps, front, l =>
      sp.child = front ∧ l = true ∧ Nested sps (root sp.tip (sp.callers.map Prod.fst)) sp.linked

end Spawning

/-- What the frames in front stand for: their cells, who has control in them, and the threads that are
at rest. The number is that of the steps that follow and that are not seen in the threads. -/
inductive Front (s : State σ Id Code Op R X) (sps : List (Spawning Id Code X)) :
    Nat → List (Id × CoroFrame Id Code Op R X) → List Id → List (Thread Id Code Op R X) → Prop
  | running (a : Active Id Code X) (gs : Callers Id Code X) (hrunning : s.running = some a)
      (hcallers : gs.map Prod.fst = a.callers) (hnested : Spawning.Nested sps a.root a.linked) :
      Front s sps 0 (threadCells a.linked a.tip (.running a.code) gs) (a.tip :: gs.calling) s.threads
  | returned (a : Active Id Code X) (gs : Callers Id Code X) (callee : Id) (result : X)
      (next : X → Code) (mark : Bool) (hrunning : s.running = some a) (hcode : a.code = next result)
      (hcallers : gs.map Prod.fst = a.callers) (hnested : Spawning.Nested sps a.root a.linked) :
      Front s sps 1
        ((callee, { state := .finalSuspended result, outer := none, linked := true }) ::
          threadCells a.linked a.tip (if mark then .awaitingTask callee next else .starting callee next) gs)
        (a.tip :: gs.calling) s.threads
  | resting (t : Thread Id Code Op R X) (ts : List (Thread Id Code Op R X)) (gs : Callers Id Code X)
      (hrunning : s.running = none) (hthreads : s.threads.Perm (t :: ts))
      (hcallers : gs.map Prod.fst = t.callers) (hfinished : ∀ r, t.state = .finished r → gs = [])
      (hnested : Spawning.Nested sps t.root t.linked) :
      Front s sps gs.calling.length (threadCells t.linked t.tip (tipState t.state) gs) gs.calling ts
  | idle (hrunning : s.running = none) (hsps : sps = []) : Front s sps 0 [] [] s.threads

structure Represents (k : Nat) (c : Frames σ Id Code Op R X) (s : State σ Id Code Op R X) : Prop where
  shared : c.shared = s.shared
  front : ∃ sps cells native ts, s.spawners = sps.map Spawning.spawner ∧ Front s sps k cells native ts ∧
    Memory.Holds c.frames (cells ++ (sps.flatMap (Spawning.cells Op R) ++ ts.flatMap restingCells)) ∧
    c.native = native ++ sps.flatMap Spawning.native

/-! ### Marks -/

namespace Callers

theorem map_all (gs : List (Caller Id Code X)) : (all gs).map Prod.fst = gs := by
  rw [all, List.map_map]
  exact List.map_id _

theorem calling_all (gs : List (Caller Id Code X)) : (all gs).calling = [] := by
  induction gs with
  | nil => rfl
  | cons g gs ih => exact ih

theorem calling_append (ss : List (Caller Id Code X)) (gs : Callers Id Code X) :
    calling (all ss ++ gs) = calling gs := by
  induction ss with
  | nil => rfl
  | cons g ss ih => exact ih

/-- Either all have left their handle or there is a first one that has not. -/
theorem all_or_calling (gs : Callers Id Code X) :
    gs = all (gs.map Prod.fst) ∨ ∃ ss g gs', gs = all ss ++ (g, false) :: gs' := by
  induction gs with
  | nil => exact .inl rfl
  | cons p gs ih =>
    obtain ⟨g, mark⟩ := p
    cases mark with
    | false => exact .inr ⟨[], g, gs, rfl⟩
    | true =>
      rcases ih with hall | ⟨ss, g', gs', rfl⟩
      · exact .inl (congrArg ((g, true) :: ·) hall)
      · exact .inr ⟨g :: ss, g', gs', rfl⟩

theorem map_fst_cells (l : Bool) (callee : Id) (gs : Callers Id Code X) :
    (cells Op R l callee gs).map Prod.fst = (gs.map Prod.fst).map Caller.id := by
  induction gs generalizing callee with
  | nil => rfl
  | cons p gs ih => exact congrArg (p.1.id :: ·) (ih p.1.id)

end Callers

theorem map_fst_threadCells (l : Bool) (tip : Id) (state : FrameState Id Code Op R X)
    (gs : Callers Id Code X) :
    (threadCells l tip state gs).map Prod.fst = names tip (gs.map Prod.fst) :=
  congrArg (tip :: ·) (Callers.map_fst_cells l tip gs)

theorem map_fst_restingCells (t : Thread Id Code Op R X) :
    (restingCells t).map Prod.fst = names t.tip t.callers := by
  rw [restingCells, map_fst_threadCells, Callers.map_all]

/-- A thread's frames from its innermost caller on are those of a thread whose tip is that caller. -/
theorem threadCells_cons (l : Bool) (tip : Id) (state : FrameState Id Code Op R X)
    (g : Caller Id Code X) (mark : Bool) (gs : Callers Id Code X) :
    threadCells l tip state ((g, mark) :: gs) =
      (tip, { state := state, outer := if mark then some g.id else none, linked := true }) ::
        threadCells l g.id (if mark then .awaitingTask tip g.next else .starting tip g.next) gs := by
  cases mark <;> rfl

/-- The callee that the first caller without a mark waits for: the cells but for what the mark says. -/
theorem threadCells_calling (l : Bool) (g : Caller Id Code X) (gs : Callers Id Code X)
    (ss : List (Caller Id Code X)) (tip : Id) (state : FrameState Id Code Op R X)
    (hstate : ∀ r, state ≠ .finalSuspended r) :
    ∃ pre callee state', (∀ r, state' ≠ .finalSuspended r) ∧ ∀ mark,
      threadCells l tip state (Callers.all ss ++ (g, mark) :: gs) =
        pre ++ (callee, { state := state', outer := if mark then some g.id else none, linked := true }) ::
          threadCells l g.id (if mark then .awaitingTask callee g.next else .starting callee g.next) gs := by
  induction ss generalizing tip state with
  | nil => exact ⟨[], tip, state, hstate, fun mark => threadCells_cons l tip state g mark gs⟩
  | cons g₀ ss ih =>
    obtain ⟨pre, callee, state', hstate', hcells⟩ :=
      ih g₀.id (.awaitingTask tip g₀.next) (fun r h => by cases h)
    refine ⟨(tip, { state := state, outer := some g₀.id, linked := true }) :: pre, callee, state',
      hstate', fun mark => ?_⟩
    rw [List.cons_append, ← hcells mark]
    exact threadCells_cons l tip state g₀ true _

/-- In a thread at rest the frame of the outermost invocation is the only one without a handle, and the
one that tells whether the thread is linked. -/
theorem threadCells_root (tip : Id) (state : FrameState Id Code Op R X)
    (gs : List (Caller Id Code X)) :
    ∃ pre state', (∀ p ∈ pre, p.2.outer ≠ none) ∧ ∀ l, threadCells l tip state (Callers.all gs) =
      pre ++ [(root tip gs, { state := state', outer := none, linked := l })] := by
  induction gs generalizing tip state with
  | nil => exact ⟨[], state, fun p hp => (by cases hp), fun l => rfl⟩
  | cons g gs ih =>
    obtain ⟨pre, state', hpre, hcells⟩ := ih g.id (.awaitingTask tip g.next)
    refine ⟨(tip, { state := state, outer := some g.id, linked := true }) :: pre, state', ?_,
      fun l => ?_⟩
    · rw [List.forall_mem_cons]
      exact ⟨by simp, hpre⟩
    · rw [Callers.all, List.map_cons, threadCells_cons, List.cons_append, root, ← hcells l]
      rfl

theorem mem_callerCells {l : Bool} {callee : Id} {gs : List (Caller Id Code X)}
    {p : Id × CoroFrame Id Code Op R X} (h : p ∈ (Callers.all gs).cells Op R l callee) :
    ∃ callee next, p.2.state = .awaitingTask callee next := by
  induction gs generalizing callee with
  | nil => cases h
  | cons g gs ih =>
    rcases List.mem_cons.mp h with rfl | h
    · exact ⟨callee, g.next, rfl⟩
    · exact ih h

theorem mem_restingCells_awaitingOp {t : Thread Id Code Op R X} {f : Id} {op : Op} {next : R → Code}
    {outer : Option Id} {l : Bool}
    (h : (f, { state := .awaitingOp op next, outer := outer, linked := l }) ∈ restingCells t) :
    f = t.tip ∧ t.state = .waiting op next := by
  rcases List.mem_cons.mp h with h | h
  · rw [Prod.mk.injEq, CoroFrame.mk.injEq] at h
    obtain ⟨rfl, hstate, -, -⟩ := h
    cases ht : t.state with
    | waiting op' next' =>
      rw [ht] at hstate
      obtain ⟨rfl, rfl⟩ := FrameState.awaitingOp.inj hstate
      exact ⟨rfl, rfl⟩
    | finished r =>
      rw [ht] at hstate
      cases hstate
  · obtain ⟨callee, next', hstate⟩ := mem_callerCells h
    cases hstate

/-! ## Destroying a thread -/

namespace Frames

variable [DecidableEq Id] (lang : Language σ Id Code Op R X)

/-- Destroying the coroutine `i` frees exactly these cells, wherever they are, and leaves `shared'`. -/
def Frees (i : Id) (cells : List (Id × CoroFrame Id Code Op R X)) (shared shared' : σ) : Prop :=
  ∀ n frames others, cells.length ≤ n → Memory.Holds frames (cells ++ others) →
    ∃ frames', destroy lang n i (shared, frames) = some (shared', frames') ∧
      Memory.Holds frames' others

variable {lang}

theorem frees_tip (t : Thread Id Code Op R X) (outer : Option Id) (l : Bool) (shared : σ) :
    Frees lang t.tip [(t.tip, { state := tipState t.state, outer := outer, linked := l })] shared
      (t.cancelled lang shared) := by
  intro n frames others hn hframes
  obtain ⟨n, rfl⟩ : ∃ k, n = k + 1 := ⟨n - 1, by simp at hn; omega⟩
  refine ⟨_, ?_, hframes.free⟩
  rw [destroy, hframes.read_eq]
  cases hstate : t.state <;> simp only [tipState, Thread.cancelled, hstate]

theorem Frees.caller {callee : Id} {cells : List (Id × CoroFrame Id Code Op R X)} {shared shared' : σ}
    (h : Frees lang callee cells shared shared') (g : Id) (next : X → Code) (outer : Option Id)
    (l : Bool) :
    Frees lang g
      (cells ++ [(g, { state := .awaitingTask callee next, outer := outer, linked := l })])
      shared shared' := by
  intro n frames others hn hframes
  rw [List.length_append, List.length_singleton] at hn
  obtain ⟨n, rfl⟩ : ∃ k, n = k + 1 := ⟨n - 1, by omega⟩
  rw [List.append_assoc, List.singleton_append] at hframes
  obtain ⟨frames', hdestroy, hframes'⟩ := h n frames _ (by omega) hframes
  refine ⟨Memory.free frames' g, ?_, hframes'.free⟩
  rw [destroy, hframes.read_middle]
  simp only [hdestroy, Option.map_some]

theorem Frees.callers {callee : Id} {cells : List (Id × CoroFrame Id Code Op R X)} {shared shared' : σ}
    (h : Frees lang callee cells shared shared') (l : Bool) (gs : List (Caller Id Code X)) :
    Frees lang (root callee gs) (cells ++ (Callers.all gs).cells Op R l callee) shared shared' := by
  induction gs generalizing callee cells with
  | nil => rwa [Callers.all, List.map_nil, Callers.cells, List.append_nil]
  | cons g gs ih =>
    have hrest := ih (h.caller g.id g.next (Callers.all gs).outer ((Callers.all gs).linked l))
    rwa [List.append_assoc] at hrest

variable (lang) in
/-- A thread at rest is destroyed as a whole, and the operation that it waits for is told. -/
theorem frees_thread (t : Thread Id Code Op R X) (shared : σ) :
    Frees lang t.root (restingCells t) shared (t.cancelled lang shared) :=
  (frees_tip t _ _ shared).callers t.linked t.callers

end Frames

/-! ## The simulation -/

section Represents

variable {c : Frames σ Id Code Op R X} {s : State σ Id Code Op R X}
  {sps : List (Spawning Id Code X)}

theorem Represents.running (sps : List (Spawning Id Code X)) (hshared : c.shared = s.shared)
    (hspawners : s.spawners = sps.map Spawning.spawner) (a : Active Id Code X)
    (gs : Callers Id Code X) (hrunning : s.running = some a) (hcallers : gs.map Prod.fst = a.callers)
    (hnested : Spawning.Nested sps a.root a.linked)
    (hframes : Memory.Holds c.frames (threadCells a.linked a.tip (.running a.code) gs ++
      (sps.flatMap (Spawning.cells Op R) ++ s.threads.flatMap restingCells)))
    (hnative : c.native = a.tip :: gs.calling ++ sps.flatMap Spawning.native) :
    Represents 0 c s :=
  ⟨hshared, sps, _, _, _, hspawners, .running a gs hrunning hcallers hnested, hframes, hnative⟩

theorem Represents.returned (hshared : c.shared = s.shared)
    (hspawners : s.spawners = sps.map Spawning.spawner) (a : Active Id Code X)
    (gs : Callers Id Code X) (callee : Id) (result : X) (next : X → Code) (mark : Bool)
    (hrunning : s.running = some a) (hcode : a.code = next result)
    (hcallers : gs.map Prod.fst = a.callers) (hnested : Spawning.Nested sps a.root a.linked)
    (hframes : Memory.Holds c.frames
      (((callee, { state := .finalSuspended result, outer := none, linked := true }) ::
        threadCells a.linked a.tip (if mark then .awaitingTask callee next else .starting callee next)
          gs) ++ (sps.flatMap (Spawning.cells Op R) ++ s.threads.flatMap restingCells)))
    (hnative : c.native = a.tip :: gs.calling ++ sps.flatMap Spawning.native) :
    Represents 1 c s :=
  ⟨hshared, sps, _, _, _, hspawners,
    .returned a gs callee result next mark hrunning hcode hcallers hnested, hframes, hnative⟩

theorem Represents.resting {k : Nat} (hshared : c.shared = s.shared)
    (hspawners : s.spawners = sps.map Spawning.spawner) (t : Thread Id Code Op R X)
    (ts : List (Thread Id Code Op R X)) (gs : Callers Id Code X) (hrunning : s.running = none)
    (hthreads : s.threads.Perm (t :: ts)) (hcallers : gs.map Prod.fst = t.callers)
    (hfinished : ∀ r, t.state = .finished r → gs = []) (hnested : Spawning.Nested sps t.root t.linked)
    (hframes : Memory.Holds c.frames (threadCells t.linked t.tip (tipState t.state) gs ++
      (sps.flatMap (Spawning.cells Op R) ++ ts.flatMap restingCells)))
    (hnative : c.native = gs.calling ++ sps.flatMap Spawning.native) (hk : k = gs.calling.length) :
    Represents k c s :=
  ⟨hshared, sps, _, _, _, hspawners, hk ▸ .resting t ts gs hrunning hthreads hcallers hfinished hnested,
    hframes, hnative⟩

theorem Represents.idle (hshared : c.shared = s.shared) (hspawners : s.spawners = [])
    (hrunning : s.running = none) (hframes : Memory.Holds c.frames (s.threads.flatMap restingCells))
    (hnative : c.native = []) : Represents 0 c s :=
  ⟨hshared, [], _, _, _, hspawners, .idle hrunning rfl, hframes, hnative⟩

theorem map_fst_spawnerCells (sps : List (Spawning Id Code X)) :
    (sps.flatMap (Spawning.cells Op R)).map Prod.fst =
      (sps.map Spawning.spawner).flatMap fun sp => names sp.tip sp.callers := by
  rw [List.map_flatMap, List.flatMap_map]
  exact List.flatMap_congr fun sp _ => map_fst_threadCells _ _ _ _

theorem map_fst_restingCells_flatMap (ts : List (Thread Id Code Op R X)) :
    (ts.flatMap restingCells).map Prod.fst = ts.flatMap fun t => names t.tip t.callers := by
  rw [List.map_flatMap]
  exact List.flatMap_congr fun t _ => map_fst_restingCells t

end Represents

namespace Frames

variable [DecidableEq Id] {lang : Language σ Id Code Op R X} {c : Frames σ Id Code Op R X}
  {s : State σ Id Code Op R X} {sps : List (Spawning Id Code X)} {b : Id}

theorem not_mem_names {a : Active Id Code X} {gs : Callers Id Code X}
    {state : FrameState Id Code Op R X} {frames : List (Id × CoroFrame Id Code Op R X)}
    (hspawners : s.spawners = sps.map Spawning.spawner) (hrunning : s.running = some a)
    (hcallers : gs.map Prod.fst = a.callers)
    (hframes : Memory.Holds frames (threadCells a.linked a.tip state gs ++
      (sps.flatMap (Spawning.cells Op R) ++ s.threads.flatMap restingCells)))
    (hfree : Memory.read frames b = none) : b ∉ s.names := by
  have hmem := hframes.not_mem_of_read hfree
  rw [List.map_append, List.map_append, map_fst_threadCells, map_fst_spawnerCells,
    map_fst_restingCells_flatMap, hcallers, ← hspawners] at hmem
  rw [State.names, hrunning, Option.toList_some, List.flatMap_singleton, List.append_assoc]
  exact hmem

omit [DecidableEq Id] in
theorem nested_of_unlinked {front : Id} (h : Spawning.Nested sps front false) : sps = [] := by
  cases sps with
  | nil => rfl
  | cons sp sps => cases h.2.1

theorem finalSuspend_linked {fr : CoroFrame Id Code Op R X} (h : fr.linked = true) (f : Id)
    (rest : List Id) (result : X) (shared : σ) : c.finalSuspend f fr rest result shared =
      { shared := shared
        frames := Memory.write c.frames f { fr with state := .finalSuspended result, outer := none }
        native := fr.outer.toList ++ rest } := if_pos h

theorem finalSuspend_unlinked {fr : CoroFrame Id Code Op R X} (h : fr.linked = false) (f : Id)
    (rest : List Id) (result : X) (shared : σ) : c.finalSuspend f fr rest result shared =
      { shared := shared, frames := Memory.free c.frames f, native := rest } := if_neg (by simp [h])

theorem step_running {a : Active Id Code X} {gs : Callers Id Code X}
    (hshared : c.shared = s.shared) (hspawners : s.spawners = sps.map Spawning.spawner)
    (hrunning : s.running = some a) (hcallers : gs.map Prod.fst = a.callers)
    (hnested : Spawning.Nested sps a.root a.linked)
    (hframes : Memory.Holds c.frames (threadCells a.linked a.tip (.running a.code) gs ++
      (sps.flatMap (Spawning.cells Op R) ++ s.threads.flatMap restingCells)))
    (hnative : c.native = a.tip :: gs.calling ++ sps.flatMap Spawning.native)
    (hfree : Memory.read c.frames b = none) :
    ∃ c' k s', step lang b c = some c' ∧ Represents k c' s' ∧
      Threads.Step lang s .internal s' := by
  have hread : Memory.read c.frames a.tip = some _ := Memory.Holds.read_eq hframes
  have hfresh := not_mem_names hspawners hrunning hcallers hframes hfree
  have hwrite := fun fr => Memory.Holds.write hframes fr
  have hfree' : ∀ fr, Memory.read (Memory.write c.frames a.tip fr) b = none :=
    fun fr => (hwrite fr).read_eq_none (hframes.not_mem_of_read hfree)
  rw [step, hnative]
  simp only [List.cons_append, hread]
  rcases hexec : lang.exec a.tip a.code c.shared with ⟨instr, shared⟩
  rw [hshared] at hexec
  cases instr with
  | step next =>
    refine ⟨_, 0, _, rfl, ?_, .step s a next shared hrunning hexec⟩
    exact .running sps rfl hspawners { a with code := next } gs rfl hcallers hnested (hwrite _) rfl
  | finish result =>
    cases gs with
    | nil =>
      obtain ⟨tip, code, callers, linked⟩ := a
      obtain rfl : [] = callers := hcallers
      cases linked with
      | true =>
        refine ⟨_, 0, _, congrArg some (finalSuspend_linked rfl _ _ _ _), ?_,
          .finish s _ result shared hrunning hexec rfl rfl⟩
        exact .resting rfl hspawners ⟨tip, .finished result, [], true⟩ s.threads [] rfl
          (List.Perm.refl _) rfl (fun _ _ => rfl) hnested (hwrite _) rfl rfl
      | false =>
        obtain rfl := nested_of_unlinked hnested
        refine ⟨_, 0, _, congrArg some (finalSuspend_unlinked rfl _ _ _ _), ?_,
          .vanish s _ result shared hrunning hexec rfl rfl⟩
        exact .idle rfl hspawners rfl (Memory.Holds.free hframes) rfl
    | cons p gs =>
      obtain ⟨g, mark⟩ := p
      have hfinal : ∀ outer, Memory.Holds
          (Memory.write c.frames a.tip { state := .finalSuspended result, outer := outer, linked := true })
          ((a.tip, { state := .finalSuspended result, outer := outer, linked := true }) ::
            threadCells a.linked g.id (if mark then .awaitingTask a.tip g.next else .starting a.tip g.next)
              gs ++ (sps.flatMap (Spawning.cells Op R) ++ s.threads.flatMap restingCells)) := by
        intro outer
        rw [threadCells_cons] at hframes
        exact Memory.Holds.write hframes _
      rw [Active.root, ← hcallers] at hnested
      refine ⟨_, 1, _, congrArg some (finalSuspend_linked rfl _ _ _ _), ?_,
        .return s a result g (gs.map Prod.fst) shared hrunning hexec hcallers.symm⟩
      refine .returned rfl hspawners ⟨g.id, g.next result, _, a.linked⟩ gs a.tip result g.next mark
        rfl rfl rfl hnested (hfinal _) ?_
      cases mark <;> rfl
  | await op next =>
    refine ⟨_, gs.calling.length, _, rfl, ?_, .await s a op next shared hrunning hexec⟩
    exact .resting rfl hspawners ⟨a.tip, .waiting op next, a.callers, a.linked⟩ s.threads gs rfl
      (List.Perm.refl _) hcallers (fun _ h => by cases h) hnested (hwrite _) rfl rfl
  | call callee next =>
    refine ⟨_, 0, _, rfl, ?_, .call s a callee next shared b hrunning hexec hfresh⟩
    exact .running sps rfl hspawners ⟨b, callee, ⟨a.tip, next⟩ :: a.callers, a.linked⟩
      ((⟨a.tip, next⟩, false) :: gs) rfl (congrArg _ hcallers) hnested
      (Memory.Holds.alloc (hwrite _) (hfree' _) _) rfl
  | spawn mode callee next =>
    refine ⟨_, 0, _, rfl, ?_, .spawn s a mode callee next shared b hrunning hexec hfresh⟩
    have halloc := Memory.Holds.alloc
      (hwrite { state := .spawning mode b next, outer := gs.outer, linked := gs.linked a.linked })
      (hfree' _) (CoroFrame.new callee)
    refine .running (⟨a.tip, mode, b, next, gs, a.linked⟩ :: sps) rfl ?_ ⟨b, callee, [], true⟩ [] rfl rfl
      ⟨rfl, rfl, ?_⟩ ?_ rfl
    · rw [List.map_cons, ← hspawners, Spawning.spawner, hcallers]
    · rw [hcallers]
      exact hnested
    · rw [List.flatMap_cons, List.append_assoc]
      exact halloc

/-- A caller that has control again takes the result of its callee, whose frame goes. -/
theorem step_returned {a : Active Id Code X} {gs : Callers Id Code X} {callee : Id} {result : X}
    {next : X → Code} {mark : Bool} (hshared : c.shared = s.shared)
    (hspawners : s.spawners = sps.map Spawning.spawner) (hrunning : s.running = some a)
    (hcode : a.code = next result) (hcallers : gs.map Prod.fst = a.callers)
    (hnested : Spawning.Nested sps a.root a.linked)
    (hframes : Memory.Holds c.frames
      (((callee, { state := .finalSuspended result, outer := none, linked := true }) ::
        threadCells a.linked a.tip (if mark then .awaitingTask callee next else .starting callee next)
          gs) ++ (sps.flatMap (Spawning.cells Op R) ++ s.threads.flatMap restingCells)))
    (hnative : c.native = a.tip :: gs.calling ++ sps.flatMap Spawning.native) :
    ∃ c', step lang b c = some c' ∧ Represents 0 c' s := by
  have hcallee : Memory.read c.frames callee = some _ := Memory.Holds.read_eq hframes
  have hswap := hframes.trans (List.Perm.swap _ _ _)
  have hread : Memory.read c.frames a.tip = some _ := Memory.Holds.read_eq hswap
  have hafter : ∀ fr, Memory.Holds (Memory.free (Memory.write c.frames a.tip fr) callee)
      ((a.tip, fr) :: (gs.cells Op R a.linked a.tip ++
        (sps.flatMap (Spawning.cells Op R) ++ s.threads.flatMap restingCells))) :=
    fun fr => ((hswap.write fr).trans (List.Perm.swap _ _ _)).free
  have hresume : ∀ fr : CoroFrame Id Code Op R X, c.awaitResume a.tip fr callee next =
      some { c with
        frames := Memory.free
          (Memory.write c.frames a.tip { fr with state := .running a.code }) callee } :=
    fun fr => by simp only [awaitResume, hcallee, hcode]
  let fr : CoroFrame Id Code Op R X :=
    { state := .running a.code, outer := gs.outer, linked := gs.linked a.linked }
  refine ⟨{ c with frames := Memory.free (Memory.write c.frames a.tip fr) callee }, ?_,
    .running sps hshared hspawners a gs hrunning hcallers hnested (hafter fr) hnative⟩
  rw [step, hnative]
  simp only [List.cons_append, hread]
  cases mark with
  | true =>
    simp only [if_true]
    rw [hresume, hnative]
    rfl
  | false =>
    simp only [Bool.false_eq_true, if_false, hcallee]
    rw [hresume, hnative]
    rfl

/-- A caller that gets a task that has not ended leaves its handle, and so on down to the one that has
been resumed. -/
theorem step_calling {t : Thread Id Code Op R X} {ts : List (Thread Id Code Op R X)}
    {ss : List (Caller Id Code X)} {g : Caller Id Code X} {gs : Callers Id Code X}
    (hshared : c.shared = s.shared) (hspawners : s.spawners = sps.map Spawning.spawner)
    (hrunning : s.running = none) (hthreads : s.threads.Perm (t :: ts))
    (hcallers : (Callers.all ss ++ (g, false) :: gs).map Prod.fst = t.callers)
    (hfinished : ∀ r, t.state = .finished r → Callers.all ss ++ (g, false) :: gs = [])
    (hnested : Spawning.Nested sps t.root t.linked)
    (hframes : Memory.Holds c.frames
      (threadCells t.linked t.tip (tipState t.state) (Callers.all ss ++ (g, false) :: gs) ++
        (sps.flatMap (Spawning.cells Op R) ++ ts.flatMap restingCells)))
    (hnative : c.native = g.id :: gs.calling ++ sps.flatMap Spawning.native) :
    ∃ c', step lang b c = some c' ∧ Represents gs.calling.length c' s := by
  have hstate : ∀ r, tipState t.state ≠ (.finalSuspended r : FrameState Id Code Op R X) := by
    intro r h
    cases ht : t.state with
    | waiting op next =>
      rw [ht] at h
      cases h
    | finished r => simpa using hfinished r ht
  obtain ⟨pre, callee, state, hfinal, hcells⟩ := threadCells_calling t.linked g gs ss t.tip _ hstate
  rw [hcells false, List.append_assoc, List.cons_append] at hframes
  have hcallee : Memory.read c.frames callee = some _ := Memory.Holds.read_middle hframes
  have hstored := Memory.Holds.write_middle hframes { state := state, outer := some g.id, linked := true }
  rw [List.append_cons] at hframes hstored
  have hread : Memory.read c.frames g.id = some _ := Memory.Holds.read_middle hframes
  have hafter := fun fr => Memory.Holds.write_middle hstored fr
  refine ⟨c.awaitSuspend g.id
      { state := .starting callee g.next, outer := gs.outer, linked := gs.linked t.linked } callee
      { state := state, outer := none, linked := true } g.next
      (gs.calling ++ sps.flatMap Spawning.native), ?_,
    .resting hshared hspawners t ts (Callers.all ss ++ (g, true) :: gs) hrunning hthreads ?_ ?_ hnested
      ?_ ?_ ?_⟩
  · rw [step, hnative]
    simp only [List.cons_append, hread, Bool.false_eq_true, if_false, hcallee]
  · rw [← hcallers, List.map_append, List.map_append, List.map_cons, List.map_cons]
  · intro r hr
    simpa using hfinished r hr
  · rw [hcells true, List.append_assoc, List.cons_append, List.append_cons]
    exact hafter _
  · rw [Callers.calling_append]
    rfl
  · rw [Callers.calling_append]
    rfl

/-- The thread that was started has come to rest: its starter goes on, and the thread is left to itself
or destroyed. -/
theorem step_spawned {t : Thread Id Code Op R X} {ts : List (Thread Id Code Op R X)}
    {sp : Spawning Id Code X} (hshared : c.shared = s.shared)
    (hspawners : s.spawners = (sp :: sps).map Spawning.spawner) (hrunning : s.running = none)
    (hthreads : s.threads.Perm (t :: ts)) (hnested : Spawning.Nested (sp :: sps) t.root t.linked)
    (hframes : Memory.Holds c.frames
      (restingCells t ++ ((sp :: sps).flatMap (Spawning.cells Op R) ++ ts.flatMap restingCells)))
    (hnative : c.native = (sp :: sps).flatMap Spawning.native) :
    ∃ c' s', step lang b c = some c' ∧ Represents 0 c' s' ∧ Threads.Step lang s .internal s' := by
  obtain ⟨hchild, -, hbelow⟩ := hnested
  obtain ⟨tip, mode, child, next, callers, linked⟩ := sp
  obtain rfl : child = t.root := hchild
  rw [List.flatMap_cons, List.append_assoc] at hframes
  have hread : Memory.read c.frames tip = some
      { state := .spawning mode t.root next, outer := callers.outer, linked := callers.linked linked } :=
    Memory.Holds.read_eq (hframes.trans (List.perm_append_comm_assoc _ _ _))
  have hnative' : c.native = tip :: (callers.calling ++ sps.flatMap Spawning.native) := hnative
  let a : Active Id Code X := ⟨tip, next, callers.map Prod.fst, linked⟩
  let fr : CoroFrame Id Code Op R X :=
    { state := .running next, outer := callers.outer, linked := callers.linked linked }
  cases mode with
  | detach =>
    obtain ⟨pre, state, -, hcells⟩ := threadCells_root t.tip (tipState t.state) t.callers
    have hcells' : restingCells { t with linked := false } = _ := hcells false
    rw [restingCells, hcells t.linked, List.append_assoc, List.singleton_append] at hframes
    have hroot : Memory.read c.frames t.root = some _ := Memory.Holds.read_middle hframes
    have hunlinked := Memory.Holds.write_middle hframes
      { state := state, outer := none, linked := false }
    rw [List.append_cons, ← hcells'] at hunlinked
    have hfront := (hunlinked.trans (List.perm_append_comm_assoc _ _ _)).trans
      ((List.perm_append_comm_assoc _ _ _).append_left _)
    refine ⟨{ c with frames := Memory.write (Memory.write c.frames t.root ⟨state, none, false⟩) tip fr },
      { s with running := some a, spawners := sps.map Spawning.spawner,
               threads := { t with linked := false } :: ts }, ?_,
      .running _ hshared rfl a callers rfl rfl hbelow (Memory.Holds.write hfront _) hnative',
      .detached s _ _ t ts hrunning hspawners rfl hthreads rfl⟩
    rw [step, hnative']
    simp only [hread, hroot]
    rfl
  | discard =>
    obtain ⟨frames, hdestroy, hframes'⟩ := frees_thread lang t c.shared c.frames.length
      c.frames _ (Memory.Holds.length_le hframes) hframes
    rw [hshared] at hdestroy
    refine ⟨{ c with shared := t.cancelled lang s.shared, frames := Memory.write frames tip fr },
      { shared := t.cancelled lang s.shared, running := some a,
        spawners := sps.map Spawning.spawner, threads := ts }, ?_,
      .running _ rfl rfl a callers rfl rfl hbelow (Memory.Holds.write hframes' _) hnative',
      .discarded s _ _ t ts hrunning hspawners rfl hthreads rfl⟩
    rw [step, hnative']
    simp only [hread, hshared, hdestroy]
    rfl

variable (lang) in
/-- While a coroutine has control, the frames make a step, wherever they are allocated: it is a step of
the threads, or is not seen there and brings the next one that is closer. -/
theorem step_represents {k : Nat} (h : Represents k c s) (hcontrol : c.native ≠ [])
    (hfree : Memory.read c.frames b = none) :
    ∃ c' k' s', step lang b c = some c' ∧ Represents k' c' s' ∧
      (Threads.Step lang s .internal s' ∨ s' = s ∧ k' < k) := by
  obtain ⟨hshared, sps, cells, native, ts, hspawners, hfront, hframes, hnative⟩ := h
  cases hfront with
  | running a gs hrunning hcallers hnested =>
    obtain ⟨c', k', s', hstep, hrep, hseen⟩ :=
      step_running hshared hspawners hrunning hcallers hnested hframes hnative hfree
    exact ⟨c', k', s', hstep, hrep, .inl hseen⟩
  | returned a gs callee result next mark hrunning hcode hcallers hnested =>
    obtain ⟨c', hstep, hrep⟩ :=
      step_returned (b := b) hshared hspawners hrunning hcode hcallers hnested hframes hnative
    exact ⟨c', 0, s, hstep, hrep, .inr ⟨rfl, Nat.one_pos⟩⟩
  | resting t _ gs hrunning hthreads hcallers hfinished hnested =>
    rcases Callers.all_or_calling gs with hall | ⟨ss, g, gs', rfl⟩
    · rw [hcallers] at hall
      subst hall
      rw [Callers.calling_all, List.nil_append] at hnative
      cases sps with
      | nil => exact absurd hnative hcontrol
      | cons sp sps =>
        obtain ⟨c', s', hstep, hrep, hseen⟩ :=
          step_spawned (b := b) hshared hspawners hrunning hthreads hnested hframes hnative
        exact ⟨c', 0, s', hstep, hrep, .inl hseen⟩
    · rw [Callers.calling_append] at hnative ⊢
      obtain ⟨c', hstep, hrep⟩ := step_calling (b := b) hshared hspawners hrunning hthreads hcallers
        hfinished hnested hframes hnative
      exact ⟨c', _, s, hstep, hrep, .inr ⟨rfl, Nat.lt_succ_self _⟩⟩
  | idle hrunning hsps =>
    rw [hsps] at hnative
    exact absurd hnative hcontrol

omit [DecidableEq Id] in
/-- When no coroutine has control, no thread runs, and the frames are those of the threads. -/
theorem idle_of_represents {k : Nat} (h : Represents k c s) (hcontrol : c.native = []) :
    s.running = none ∧ s.spawners = [] ∧
      Memory.Holds c.frames (s.threads.flatMap restingCells) := by
  obtain ⟨hshared, sps, cells, native, ts, hspawners, hfront, hframes, hnative⟩ := h
  rw [hcontrol] at hnative
  obtain ⟨hnative, hspnative⟩ := List.append_eq_nil_iff.mp hnative.symm
  obtain rfl : sps = [] := by
    cases sps with
    | nil => rfl
    | cons sp sps => cases hspnative
  cases hfront with
  | running a gs hrunning hcallers hnested => cases hnative
  | returned a gs callee result next mark hrunning hcode hcallers hnested => cases hnative
  | resting t _ gs hrunning hthreads hcallers hfinished hnested =>
    rcases Callers.all_or_calling gs with hall | ⟨ss, g, gs', rfl⟩
    · rw [hcallers] at hall
      subst hall
      exact ⟨hrunning, hspawners, hframes.trans (hthreads.flatMap_right restingCells).symm⟩
    · rw [Callers.calling_append] at hnative
      cases hnative
  | idle hrunning hsps => exact ⟨hrunning, hspawners, hframes⟩

theorem exists_root {threads : List (Thread Id Code Op R X)} {f : Id} {fr : CoroFrame Id Code Op R X}
    (hframes : Memory.Holds c.frames (threads.flatMap restingCells))
    (hread : Memory.read c.frames f = some fr) (houter : fr.outer = none) :
    ∃ t ts pre state, threads.Perm (t :: ts) ∧ f = t.root ∧
      (∀ l, threadCells l t.tip (tipState t.state) (Callers.all t.callers) =
        pre ++ [(f, { state := state, outer := none, linked := l })]) ∧
      fr = { state := state, outer := none, linked := t.linked } := by
  obtain ⟨t, ht, hmem⟩ := List.mem_flatMap.mp (hframes.perm.mem_iff.mp (Memory.mem_of_read hread))
  obtain ⟨before, after, rfl⟩ := List.append_of_mem ht
  obtain ⟨pre, state, hpre, hcells⟩ := threadCells_root t.tip (tipState t.state) t.callers
  rw [restingCells, hcells t.linked] at hmem
  rcases List.mem_append.mp hmem with hmem | hmem
  · exact absurd houter (hpre _ hmem)
  · obtain ⟨rfl, rfl⟩ := Prod.mk.inj (List.mem_singleton.mp hmem)
    exact ⟨t, before ++ after, pre, state, List.perm_middle, rfl, hcells, rfl⟩

/-- Every step of the frames is one of the threads, or is not seen there. -/
theorem represents_step {k : Nat} {c' : Frames σ Id Code Op R X} {a : Label Id Code R}
    (h : Represents k c s) (hstep : Step lang c a c') :
    ∃ k' s', Represents k' c' s' ∧
      (Threads.Step lang s a s' ∨ a.isInternal = true ∧ s' = s ∧ k' < k) := by
  have hshared := h.shared
  cases hstep with
  | internal _ b hfree hstep =>
    have hcontrol : c.native ≠ [] := fun hnil => by
      simp only [Frames.step, hnil, reduceCtorEq] at hstep
    obtain ⟨c₁, k', s', hstep', hrep, hseen⟩ := step_represents lang h hcontrol hfree
    obtain rfl := Option.some.inj (hstep.symm.trans hstep')
    exact ⟨k', s', hrep, hseen.imp_right fun hunseen => ⟨rfl, hunseen⟩⟩
  | event shared hnative hevent =>
    obtain ⟨hrunning, hspawners, hframes⟩ := idle_of_represents h hnative
    rw [hshared] at hevent
    exact ⟨0, { s with shared := shared }, .idle rfl hspawners hrunning hframes hnative,
      .inl (.event s shared hrunning hspawners hevent)⟩
  | resume _ f r shared hnative hevent hresume =>
    obtain ⟨hrunning, hspawners, hframes⟩ := idle_of_represents h hnative
    rw [hshared] at hevent
    rw [Frames.resume] at hresume
    split at hresume
    · rename_i op next outer l hread
      obtain ⟨t, ht, hmem⟩ :=
        List.mem_flatMap.mp (hframes.perm.mem_iff.mp (Memory.mem_of_read hread))
      obtain ⟨rfl, hstate⟩ := mem_restingCells_awaitingOp hmem
      obtain ⟨before, after, hthreads⟩ := List.append_of_mem ht
      have hperm : s.threads.Perm (t :: (before ++ after)) := hthreads ▸ List.perm_middle
      have hfront : Memory.Holds c.frames
          (restingCells t ++ (before ++ after).flatMap restingCells) :=
        hframes.trans (hperm.flatMap_right restingCells)
      have hcell := Option.some.inj (hfront.read_eq.symm.trans hread)
      rw [CoroFrame.mk.injEq] at hcell
      obtain ⟨-, rfl, rfl⟩ := hcell
      obtain rfl := Option.some.inj hresume
      refine ⟨0, { s with shared := shared, running := some ⟨t.tip, next r, t.callers, t.linked⟩,
                          threads := before ++ after }, ?_,
        .inl (.resume s t _ op next r shared hrunning hspawners hevent hperm hstate)⟩
      refine .running [] rfl hspawners ⟨t.tip, next r, t.callers, t.linked⟩
        (Callers.all t.callers) rfl (Callers.map_all _) trivial (hfront.write _) ?_
      rw [Callers.calling_all, hnative]
      rfl
    · cases hresume
  | start b body hnative hfree =>
    obtain ⟨hrunning, hspawners, hframes⟩ := idle_of_represents h hnative
    refine ⟨0, _, ?_, .inl (.start s b body hrunning hspawners ?_)⟩
    · exact .running [] hshared hspawners ⟨b, body, [], true⟩ [] rfl rfl trivial
        (hframes.alloc hfree _) rfl
    · have hmem := hframes.not_mem_of_read hfree
      rw [map_fst_restingCells_flatMap] at hmem
      rw [State.names, hrunning, hspawners]
      exact hmem
  | unlink f fr hnative hread houter hlinked =>
    obtain ⟨hrunning, hspawners, hframes⟩ := idle_of_represents h hnative
    obtain ⟨t, ts, pre, state, hthreads, rfl, hcells, rfl⟩ := exists_root hframes hread houter
    have hfront : Memory.Holds c.frames (restingCells t ++ ts.flatMap restingCells) :=
      hframes.trans (hthreads.flatMap_right restingCells)
    rw [restingCells, hcells t.linked, List.append_assoc, List.singleton_append] at hfront
    have hunlinked := hfront.write_middle { state := state, outer := none, linked := false }
    have hcells' : restingCells { t with linked := false } = _ := hcells false
    rw [List.append_cons, ← hcells'] at hunlinked
    exact ⟨0, { s with threads := { t with linked := false } :: ts },
      .idle hshared hspawners hrunning hunlinked hnative,
      .inl (.unlink s t ts hrunning hspawners hthreads hlinked)⟩
  | destroy f fr p hnative hread houter hlinked hdestroy =>
    obtain ⟨hrunning, hspawners, hframes⟩ := idle_of_represents h hnative
    obtain ⟨t, ts, pre, state, hthreads, rfl, hcells, rfl⟩ := exists_root hframes hread houter
    have hfront := hframes.trans (hthreads.flatMap_right restingCells)
    obtain ⟨frames, hdestroy', hframes'⟩ := frees_thread lang t c.shared c.frames.length
      c.frames _ (Memory.Holds.length_le hfront) hfront
    obtain rfl := Option.some.inj (hdestroy.symm.trans hdestroy')
    refine ⟨0, { s with shared := t.cancelled lang s.shared, threads := ts }, ?_,
      .inl (.destroy s t ts hrunning hspawners hthreads hlinked)⟩
    exact .idle (congrArg (t.cancelled lang) hshared) hspawners hrunning hframes' hnative

/-! ## Whole runs -/

omit [DecidableEq Id] in
theorem represents_new (shared : σ) :
    Represents 0 (new shared : Frames σ Id Code Op R X) (.new shared) :=
  .idle rfl rfl rfl ⟨List.Perm.refl _, List.nodup_nil⟩ rfl

theorem represents_run {shared : σ} {as : List (Label Id Code R)}
    (hrun : Run (Step lang) (new shared) as c) :
    ∃ bs k s, Run (Threads.Step lang) (.new shared) bs s ∧ Represents k c s ∧
      bs.filter (!·.isInternal) = as.filter (!·.isInternal) := by
  obtain ⟨bs, k, s, hrun', hrep, hbs, -⟩ := hrun.simulates Represents Label.isInternal
    (fun _ _ _ _ _ => represents_step) (represents_new shared)
  exact ⟨bs, k, s, hrun', hrep, hbs⟩

/-- Whatever is started, completes, is unlinked and is destroyed in whatever order: the frames do what
the threads do. From outside the same is seen, the same has become of the shared state, and once no
coroutine has control, the frames in memory are those of the threads that wait or have ended, each
linked to the caller that waits for it. -/
theorem tasks_refine {shared : σ} {as : List (Label Id Code R)}
    (hrun : Run (Step lang) (new shared) as c) :
    ∃ bs s, Run (Threads.Step lang) (.new shared) bs s ∧
      bs.filter (!·.isInternal) = as.filter (!·.isInternal) ∧ c.shared = s.shared ∧
      (c.native = [] → s.running = none ∧ s.spawners = [] ∧
        c.frames.Perm (s.threads.flatMap restingCells)) := by
  obtain ⟨bs, k, s, hrun', hrep, hbs⟩ := represents_run hrun
  refine ⟨bs, s, hrun', hbs, hrep.shared, fun hnative => ?_⟩
  obtain ⟨hrunning, hspawners, hframes⟩ := idle_of_represents hrep hnative
  exact ⟨hrunning, hspawners, hframes.perm⟩

/-- A body `0` that awaits a body `1`, which awaits an operation; any other body ends with its number. -/
def relay : Language Unit Nat Nat Unit Nat Nat where
  exec
    | _, 0, u => (.call 1 fun result => result + 10, u)
    | _, 1, u => (.await () fun status => status + 10, u)
    | _, n, u => (.finish n, u)
  cancel := fun _ _ u => u
  event := fun _ _ _ => True

/-- What happens around the coroutine of a body `0` at the address `0`, whose callee is at `1`. -/
def relayed : List (Label Nat Nat Nat) :=
  [.start 0 0, .internal, .internal, .internal, .event (some (1, 5)), .internal, .internal, .internal,
    .destroy 0]

theorem run_relayed : Run (Step relay) (new ()) relayed (new ()) :=
  .cons (.start _ 0 0 rfl rfl) (.cons (.internal _ _ 1 rfl rfl) (.cons (.internal _ _ 2 rfl rfl)
    (.cons (.internal _ _ 2 rfl rfl) (.cons (.resume _ _ 1 5 () rfl trivial rfl)
      (.cons (.internal _ _ 2 rfl rfl) (.cons (.internal _ _ 2 rfl rfl)
        (.cons (.internal _ _ 2 rfl rfl) (.cons (.destroy _ 0 _ _ rfl rfl rfl rfl rfl) (.nil _)))))))))

theorem tasks_refine_relayed :
    ∃ bs s, Run (Threads.Step relay) (.new ()) bs s ∧
      bs.filter (!·.isInternal) = relayed.filter (!·.isInternal) ∧ () = s.shared ∧
      ([] = ([] : List Nat) → s.running = none ∧ s.spawners = [] ∧
        ([] : List (Nat × CoroFrame Nat Nat Unit Nat Nat)).Perm (s.threads.flatMap restingCells)) :=
  tasks_refine run_relayed

/-- No run comes to a coroutine that is resumed, asked for its result or destroyed when it is gone or
is not in the state for it: whichever has control goes on, and whichever is awaited by none can be
destroyed while nothing runs. -/
theorem tasks_defined {shared : σ} {as : List (Label Id Code R)}
    (hrun : Run (Step lang) (new shared) as c) :
    (c.native ≠ [] → ∀ b, Memory.read c.frames b = none → (step lang b c).isSome) ∧
    (c.native = [] → ∀ f fr, Memory.read c.frames f = some fr → fr.outer = none →
      (destroy lang c.frames.length f (c.shared, c.frames)).isSome) := by
  obtain ⟨bs, k, s, -, hrep, -⟩ := represents_run hrun
  refine ⟨fun hcontrol b hfree => ?_, fun hnative f fr hread houter => ?_⟩
  · obtain ⟨c', -, -, hstep, -⟩ := step_represents lang hrep hcontrol hfree
    exact Option.isSome_iff_exists.mpr ⟨c', hstep⟩
  · obtain ⟨-, -, hframes⟩ := idle_of_represents hrep hnative
    obtain ⟨t, ts, pre, state, hthreads, rfl, -, -⟩ := exists_root hframes hread houter
    have hfront := hframes.trans (hthreads.flatMap_right restingCells)
    obtain ⟨frames, hdestroy, -⟩ := frees_thread lang t c.shared c.frames.length c.frames _
      (Memory.Holds.length_le hfront) hfront
    exact Option.isSome_iff_exists.mpr ⟨_, hdestroy⟩

/-- While both coroutines wait, the task of the outer one can be destroyed; when the operation has
completed, the inner one goes on. -/
theorem tasks_defined_relayed : ∃ waiting resumed : Frames Unit Nat Nat Unit Nat Nat,
    Run (Step relay) (new ()) (relayed.take 4) waiting ∧ waiting.frames.length = 2 ∧
      (destroy relay 2 0 (waiting.shared, waiting.frames)).isSome ∧
    Run (Step relay) (new ()) (relayed.take 5) resumed ∧ resumed.native = [1] ∧
      (step relay 2 resumed).isSome := by
  obtain ⟨waiting, fr, hwaiting, hlength, hnative, hread, houter⟩ :
      ∃ (waiting : Frames Unit Nat Nat Unit Nat Nat) (fr : CoroFrame Nat Nat Unit Nat Nat),
        Run (Step relay) (new ()) (relayed.take 4) waiting ∧ waiting.frames.length = 2 ∧
          waiting.native = [] ∧ Memory.read waiting.frames 0 = some fr ∧ fr.outer = none :=
    ⟨_, _, .cons (.start _ 0 0 rfl rfl) (.cons (.internal _ _ 1 rfl rfl)
      (.cons (.internal _ _ 2 rfl rfl) (.cons (.internal _ _ 2 rfl rfl) (.nil _)))),
      rfl, rfl, rfl, rfl⟩
  obtain ⟨resumed, hresumed, hcontrol, hfree⟩ : ∃ resumed : Frames Unit Nat Nat Unit Nat Nat,
      Run (Step relay) (new ()) (relayed.take 5) resumed ∧ resumed.native = [1] ∧
        Memory.read resumed.frames 2 = none :=
    ⟨_, .cons (.start _ 0 0 rfl rfl) (.cons (.internal _ _ 1 rfl rfl)
      (.cons (.internal _ _ 2 rfl rfl) (.cons (.internal _ _ 2 rfl rfl)
        (.cons (.resume _ _ 1 5 () rfl trivial rfl) (.nil _))))), rfl, rfl⟩
  refine ⟨waiting, resumed, hwaiting, hlength, ?_, hresumed, hcontrol, ?_⟩
  · rw [← hlength]
    exact (tasks_defined hwaiting).2 hnative 0 fr hread houter
  · exact (tasks_defined hresumed).1 (by rw [hcontrol]; exact List.cons_ne_nil _ _) 2 hfree

omit [DecidableEq Id] in
theorem represents_le {k : Nat} (h : Represents k c s) : k ≤ c.frames.length := by
  obtain ⟨-, sps, cells, native, ts, -, hfront, hframes, -⟩ := h
  refine le_trans ?_ hframes.length_le
  cases hfront with
  | running a gs hrunning hcallers hnested => exact Nat.zero_le _
  | returned a gs callee result next mark hrunning hcode hcallers hnested =>
    exact Nat.succ_le_succ (Nat.zero_le _)
  | resting t _ gs hrunning hthreads hcallers hfinished hnested =>
    have hcalling : ∀ gs : Callers Id Code X, gs.calling.length ≤ gs.length := by
      intro gs
      induction gs with
      | nil => exact Nat.le_refl _
      | cons p gs ih =>
        obtain ⟨g, _ | _⟩ := p
        · exact Nat.succ_le_succ ih
        · exact Nat.le_succ_of_le ih
    have hlength := congrArg List.length
      (map_fst_threadCells t.linked t.tip (tipState t.state : FrameState Id Code Op R X) gs)
    simp only [List.length_map, names, List.length_cons] at hlength
    rw [hlength]
    exact Nat.le_succ_of_le (hcalling gs)
  | idle hrunning hsps => exact Nat.zero_le _

/-- The frames do not go on among themselves for ever: of any run that takes more steps than there are
frames, the threads see some. -/
theorem tasks_advance {shared : σ} {as : List (Label Id Code R)} {n : Nat}
    {c' : Frames σ Id Code Op R X} (hrun : Run (Step lang) (new shared) as c)
    (hn : c.frames.length < n) (hrun' : Run (Step lang) c (List.replicate n .internal) c') :
    ∃ before k s bs k' s', Run (Threads.Step lang) (.new shared) before s ∧ Represents k c s ∧
      Run (Threads.Step lang) s bs s' ∧ bs ≠ [] ∧ Represents k' c' s' := by
  obtain ⟨before, k, s, hbefore, hrep, -⟩ := represents_run hrun
  obtain ⟨bs, k', s', hseen, hrep', -, hlong⟩ := hrun'.simulates Represents Label.isInternal
    (fun _ _ _ _ _ => represents_step) hrep
  have hle := represents_le hrep
  exact ⟨before, k, s, bs, k', s', hbefore, hrep, hseen,
    hlong (by rw [List.length_replicate]; omega), hrep'⟩

theorem tasks_advance_relayed : ∃ c c' : Frames Unit Nat Nat Unit Nat Nat,
    c.frames.length = 1 ∧ Run (Step relay) c (List.replicate 2 .internal) c' ∧
      ∃ before k s bs k' s', Run (Threads.Step relay) (.new ()) before s ∧ Represents k c s ∧
        Run (Threads.Step relay) s bs s' ∧ bs ≠ [] ∧ Represents k' c' s' := by
  obtain ⟨c, c', hrun, hlength, hrun'⟩ : ∃ c c', Run (Step relay) (new ()) [.start 0 0] c ∧
      c.frames.length = 1 ∧ Run (Step relay) c (List.replicate 2 .internal) c' :=
    ⟨_, _, .cons (.start _ 0 0 rfl rfl) (.nil _), rfl,
      .cons (.internal _ _ 1 rfl rfl) (.cons (.internal _ _ 2 rfl rfl) (.nil _))⟩
  exact ⟨c, c', hlength, hrun', tasks_advance hrun (by rw [hlength]; decide) hrun'⟩

end Frames

end CppEvent
