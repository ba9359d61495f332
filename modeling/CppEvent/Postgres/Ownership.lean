import CppEvent.Library.Transition
import CppEvent.Net.Socket

/-!
# The connection counter

The special member functions of `pg_connection`, which count the connections that own a socket. One of
them forgets: an assignment onto a connection that owns a socket destroys the socket and keeps its unit
in the counter. All others are exact (`counters_step`).
-/

namespace CppEvent

open Transition

/-- `pg_connection` as an object: its socket, unless it was moved from; the address of its counter; and
`m_query_ready`. -/
structure ConnObject where
  sock : Option Socket
  connCount : Nat
  queryReady : Bool

def ConnObject.moved (c : ConnObject) : ConnObject := { c with sock := none }

/-- Whether it owns a socket and counts on this counter. -/
def ConnObject.owns (k : Nat) (c : ConnObject) : Bool := c.sock.isSome && c.connCount == k

/-- The objects in the order of their construction, without those that were destroyed, and the counters
by their addresses. -/
structure Objects where
  conns : List (Option ConnObject)
  counters : Nat → Int

namespace Objects

def new : Objects where
  conns := []
  counters := fun _ => 0

def object (s : Objects) (i : Nat) : Option ConnObject := s.conns[i]?.join

/-- `pg_connection(std::unique_ptr<socket>&&, long*)`. -/
def construct (s : Objects) (sock : Socket) (connCount : Nat) : Objects where
  conns := s.conns ++ [some { sock := some sock, connCount := connCount, queryReady := false }]
  counters := Function.update s.counters connCount (s.counters connCount + 1)

/-- `pg_connection(pg_connection&&)`. -/
def moveConstruct (s : Objects) (other : Nat) : Option Objects := do
  let c ← s.object other
  some { s with conns := s.conns.set other (some c.moved) ++ [some c] }

/-- `operator=(pg_connection&&)`; a socket that is assigned to itself stays. -/
def moveAssign (s : Objects) (this other : Nat) : Option Objects := do
  let _ ← s.object this
  let c ← s.object other
  some { s with conns := (s.conns.set other (some c.moved)).set this (some c) }

def destroy (s : Objects) (this : Nat) : Option Objects := do
  let c ← s.object this
  some {
    conns := s.conns.set this none
    counters := if c.sock.isSome then
        Function.update s.counters c.connCount (s.counters c.connCount - 1)
      else s.counters }

/-- The connections that own a socket and count on this counter. -/
def owners (s : Objects) (k : Nat) : Nat := s.conns.countP fun o => o.any (ConnObject.owns k)

/-- Every counter is the number of its owners. -/
def Exact (s : Objects) : Prop := ∀ k, s.counters k = s.owners k

end Objects

inductive ObjectOp where
  | construct (sock : Socket) (connCount : Nat)
  | moveConstruct (other : Nat)
  | moveAssign (this other : Nat)
  | destroy (this : Nat)

namespace ObjectOp

def run (s : Objects) : ObjectOp → Option Objects
  | construct sock connCount => some (s.construct sock connCount)
  | moveConstruct other => s.moveConstruct other
  | moveAssign this other => s.moveAssign this other
  | destroy this => s.destroy this

/-- The counter of the connection that an assignment from another one takes a socket away from. -/
def overwrites (s : Objects) : ObjectOp → Option Nat
  | moveAssign this other =>
      if this = other then none
      else ((s.object this).filter fun c => c.sock.isSome).map ConnObject.connCount
  | construct _ _ | moveConstruct _ | destroy _ => none

end ObjectOp

namespace Objects

/-- The objects that an operation needs live, and this is what it makes of them. -/
def Step (s : Objects) (op : ObjectOp) (s' : Objects) : Prop := op.run s = some s'

variable {s s' : Objects} {k : Nat}

theorem object_eq_some {i : Nat} {c : ConnObject} (h : s.object i = some c) :
    ∃ hi : i < s.conns.length, s.conns[i] = some c := by
  rw [object, Option.join_eq_some_iff] at h
  exact List.getElem?_eq_some_iff.mp h

def unit (k : Nat) (o : Option ConnObject) : Int := if o.any (ConnObject.owns k) then 1 else 0

theorem countP_set (k : Nat) {conns : List (Option ConnObject)} {i : Nat} {o : Option ConnObject}
    (hi : i < conns.length) (ho : conns[i] = o) (o' : Option ConnObject) :
    ((conns.set i o').countP fun o => o.any (ConnObject.owns k) : Int) =
      (conns.countP fun o => o.any (ConnObject.owns k) : Int) - unit k o + unit k o' := by
  have hpos : o.any (ConnObject.owns k) →
      0 < conns.countP fun o => o.any (ConnObject.owns k) := fun h =>
    List.countP_pos_iff.mpr ⟨o, ho ▸ List.getElem_mem hi, h⟩
  rw [List.countP_set hi, ho, unit, unit]
  split
  · have := hpos ‹_›
    split <;> omega
  · split <;> omega

theorem countP_append (k : Nat) (conns : List (Option ConnObject)) (o : Option ConnObject) :
    ((conns ++ [o]).countP fun o => o.any (ConnObject.owns k) : Int) =
      (conns.countP fun o => o.any (ConnObject.owns k) : Int) + unit k o := by
  rw [List.countP_append, List.countP_singleton, unit]
  split <;> simp

@[simp] theorem unit_none : unit k none = 0 := rfl

@[simp] theorem unit_moved (c : ConnObject) : unit k (some c.moved) = 0 := rfl

theorem unit_some (c : ConnObject) :
    unit k (some c) = if c.sock.isSome ∧ c.connCount = k then 1 else 0 := by
  simp [unit, ConnObject.owns]

/-- A step moves a counter and the number of its owners together, unless it overwrites an owner. -/
theorem counters_step {op : ObjectOp} (h : Step s op s') (k : Nat) :
    s'.counters k - s'.owners k =
      s.counters k - s.owners k + if op.overwrites s = some k then 1 else 0 := by
  cases op with
  | construct sock connCount =>
    obtain rfl := Option.some.inj h
    rw [ObjectOp.overwrites, if_neg (Option.some_ne_none k).symm, construct, owners, countP_append,
      unit_some, ← owners]
    by_cases hk : connCount = k
    · subst hk
      simp
    · simp [hk, Function.update_of_ne (Ne.symm hk)]
  | moveConstruct other =>
    obtain ⟨c, hc, h⟩ := Option.bind_eq_some_iff.mp h
    obtain rfl := Option.some.inj h
    obtain ⟨hi, hget⟩ := object_eq_some hc
    rw [ObjectOp.overwrites, if_neg (Option.some_ne_none k).symm, owners, countP_append,
      countP_set k hi hget, unit_moved, ← owners]
    dsimp only
    omega
  | moveAssign this other =>
    obtain ⟨c, hc, h⟩ := Option.bind_eq_some_iff.mp h
    obtain ⟨d, hd, h⟩ := Option.bind_eq_some_iff.mp h
    obtain rfl := Option.some.inj h
    obtain ⟨hi, hget⟩ := object_eq_some hc
    obtain ⟨hj, hget'⟩ := object_eq_some hd
    rw [ObjectOp.overwrites]
    by_cases hself : this = other
    · subst hself
      rw [if_pos rfl, owners, List.set_set, countP_set k hj hget', ← owners]
      simp
    · have hi' : this < (s.conns.set other (some d.moved)).length := by rwa [List.length_set]
      have hset : (s.conns.set other (some d.moved)).get ⟨this, hi'⟩ = some c := by
        rw [List.get_eq_getElem, List.getElem_set_of_ne (Ne.symm hself), hget]
      rw [if_neg hself, owners, countP_set k _ hset, countP_set k hj hget', unit_moved, ← owners, hc,
        unit_some c]
      by_cases hsock : c.sock.isSome
      · simp [hsock]
        omega
      · simp [hsock]
  | destroy this =>
    obtain ⟨c, hc, h⟩ := Option.bind_eq_some_iff.mp h
    obtain rfl := Option.some.inj h
    obtain ⟨hi, hget⟩ := object_eq_some hc
    rw [ObjectOp.overwrites, if_neg (Option.some_ne_none k).symm, owners, countP_set k hi hget,
      unit_none, unit_some, ← owners]
    dsimp only
    by_cases hsock : c.sock.isSome
    · rw [if_pos hsock]
      by_cases hk : c.connCount = k
      · subst hk
        simp [hsock]
      · simp [hk, Function.update_of_ne (Ne.symm hk)]
    · simp [hsock]

theorem step_unique (s : Objects) (op : ObjectOp) (s₁ s₂ : Objects) (h₁ : Step s op s₁)
    (h₂ : Step s op s₂) : s₁ = s₂ :=
  Option.some.inj (h₁.symm.trans h₂)

theorem exact_step_iff {op : ObjectOp} (h : s.Exact) (hstep : Step s op s') :
    s'.Exact ↔ op.overwrites s = none := by
  constructor
  · intro h'
    rw [Option.eq_none_iff_forall_ne_some]
    intro k hk
    have := counters_step hstep k
    rw [if_pos hk, h k, h' k] at this
    omega
  · intro hnone k
    have := counters_step hstep k
    rw [hnone, if_neg (Option.some_ne_none k).symm, h k] at this
    omega

/-- The counters are exact after every step of a run exactly if none of them overwrites an owner. -/
theorem exact_iff {ops : List ObjectOp} (hrun : Run Step new ops s') :
    (∀ pre post s, ops = pre ++ post → Run Step new pre s → s.Exact) ↔
      Run (Within (fun s op => op.overwrites s = none) Step) new ops s' := by
  constructor
  · suffices hgen : ∀ {s₀ : Objects}, s₀.Exact → Run Step s₀ ops s' →
        (∀ pre post s, ops = pre ++ post → Run Step s₀ pre s → s.Exact) →
          Run (Within (fun s op => op.overwrites s = none) Step) s₀ ops s' from
      hgen (fun _ => rfl) hrun
    clear hrun
    intro s₀ h₀ hrun
    induction hrun with
    | nil s => exact fun _ => .nil s
    | cons head tail ih =>
      intro hall
      have h₁ := hall [_] _ _ rfl (.cons head (.nil _))
      exact .cons ⟨(exact_step_iff h₀ head).mp h₁, head⟩
        (ih h₁ fun pre post s hops hpre => hall (_ :: pre) post s (by rw [hops]; rfl) (.cons head hpre))
  · rintro hwithin pre post s rfl hpre
    obtain ⟨s₁, hwithin, -⟩ := hwithin.of_append
    have h₁ : s₁.Exact :=
      hwithin.invariant Exact (fun s op s' h hstep => (exact_step_iff h hstep.2).mpr hstep.1)
        fun _ => rfl
    have hrun₁ : Run Step new pre s₁ := hwithin.mono fun _ _ _ h => h.2
    obtain rfl := Run.unique step_unique hpre hrun₁
    exact h₁

def someSocket : Socket := Socket.new [] fun _ => .accepted 0

/-- A connection that is moved, moved back and destroyed. -/
theorem exact_iff_moved : ∃ s', Run Step new [.construct someSocket 0, .moveConstruct 0,
      .moveAssign 0 1, .destroy 1, .destroy 0] s' ∧
    ((∀ pre post s, ([.construct someSocket 0, .moveConstruct 0, .moveAssign 0 1, .destroy 1,
        .destroy 0] : List ObjectOp) = pre ++ post → Run Step new pre s → s.Exact) ↔
      Run (Within (fun s op => op.overwrites s = none) Step) new [.construct someSocket 0,
        .moveConstruct 0, .moveAssign 0 1, .destroy 1, .destroy 0] s') :=
  have hrun := Run.cons rfl (.cons rfl (.cons rfl (.cons rfl (.cons rfl (.nil _)))))
  ⟨_, hrun, exact_iff hrun⟩

/-- One of two connections is assigned to the other, and the counter stays at two. -/
theorem not_exact_assigned : ¬ ∀ (ops : List ObjectOp) (s' : Objects), Run Step new ops s' →
    s'.Exact := by
  intro h
  have hexact := h [.construct someSocket 0, .construct someSocket 0, .moveAssign 0 1] _
    (.cons rfl (.cons rfl (.cons rfl (.nil _)))) 0
  exact absurd hexact (by decide)

end Objects

end CppEvent
