import Mathlib

/-!
# Memory as a list of cells

Cells with an address each, allocated at any address that is free. `Holds m cells` says that a memory
consists of these cells, in whatever order it lists them; with the cell that an operation is about in
front, it says what the operation leaves.
-/

namespace Memory

variable {Id Cell : Type} [DecidableEq Id]

def read (m : List (Id × Cell)) (i : Id) : Option Cell := (m.find? fun p => p.1 = i).map Prod.snd

def write (m : List (Id × Cell)) (i : Id) (c : Cell) : List (Id × Cell) :=
  m.map fun p => if p.1 = i then (i, c) else p

def free (m : List (Id × Cell)) (i : Id) : List (Id × Cell) := m.filter fun p => p.1 ≠ i

def alloc (m : List (Id × Cell)) (i : Id) (c : Cell) : List (Id × Cell) := (i, c) :: m

omit [DecidableEq Id] in
/-- The memory has exactly these cells, at different addresses. -/
structure Holds (m cells : List (Id × Cell)) : Prop where
  perm : m.Perm cells
  nodup : (cells.map Prod.fst).Nodup

variable {m cells : List (Id × Cell)} {i : Id} {c : Cell}

theorem mem_of_read (h : read m i = some c) : (i, c) ∈ m := by
  obtain ⟨p, hp, rfl⟩ := Option.map_eq_some_iff.mp h
  obtain rfl : p.1 = i := by simpa using List.find?_some hp
  exact List.mem_of_find?_eq_some hp

namespace Holds

omit [DecidableEq Id] in
theorem trans {cells' : List (Id × Cell)} (h : Holds m cells) (hperm : cells.Perm cells') :
    Holds m cells' :=
  ⟨h.perm.trans hperm, (hperm.map Prod.fst).nodup_iff.mp h.nodup⟩

omit [DecidableEq Id] in
theorem not_mem (h : Holds m ((i, c) :: cells)) {p : Id × Cell} (hp : p ∈ cells) : p.1 ≠ i := by
  have hnodup := h.nodup
  rw [List.map_cons, List.nodup_cons] at hnodup
  rintro rfl
  exact hnodup.1 (List.mem_map.mpr ⟨p, hp, rfl⟩)

theorem read_eq (h : Holds m ((i, c) :: cells)) : read m i = some c := by
  have hmem : (i, c) ∈ m := h.perm.mem_iff.mpr List.mem_cons_self
  rw [read]
  cases hfind : m.find? fun p => p.1 = i with
  | none => exact absurd (decide_eq_true rfl) (List.find?_eq_none.mp hfind _ hmem)
  | some p =>
    have hi : p.1 = i := by simpa using List.find?_some hfind
    rcases List.mem_cons.mp (h.perm.mem_iff.mp (List.mem_of_find?_eq_some hfind)) with rfl | hp
    · rfl
    · exact absurd hi (h.not_mem hp)

theorem read_eq_none (h : Holds m cells) (hi : i ∉ cells.map Prod.fst) : read m i = none := by
  rw [read, Option.map_eq_none_iff, List.find?_eq_none]
  intro p hp hpi
  have hpi : p.1 = i := by simpa using hpi
  exact hi (List.mem_map.mpr ⟨p, h.perm.mem_iff.mp hp, hpi⟩)

theorem not_mem_of_read (h : Holds m cells) (hi : read m i = none) : i ∉ cells.map Prod.fst := by
  rw [read, Option.map_eq_none_iff, List.find?_eq_none] at hi
  intro hmem
  obtain ⟨p, hp, hpi⟩ := List.mem_map.mp hmem
  exact hi p (h.perm.mem_iff.mpr hp) (by simpa using hpi)

theorem write (h : Holds m ((i, c) :: cells)) (c' : Cell) :
    Holds (write m i c') ((i, c') :: cells) := by
  have hothers : cells.map (fun p => if p.1 = i then (i, c') else p) = cells := by
    rw [List.map_congr_left fun p hp => if_neg (h.not_mem hp), List.map_id']
  refine ⟨?_, h.nodup⟩
  have hperm := h.perm.map fun p => if p.1 = i then (i, c') else p
  rwa [List.map_cons, if_pos rfl, hothers] at hperm

theorem free (h : Holds m ((i, c) :: cells)) : Holds (free m i) cells := by
  have hothers : cells.filter (fun p => p.1 ≠ i) = cells :=
    List.filter_eq_self.mpr fun p hp => by simpa using h.not_mem hp
  have hnodup := h.nodup
  rw [List.map_cons, List.nodup_cons] at hnodup
  refine ⟨?_, hnodup.2⟩
  have hperm := h.perm.filter fun p => p.1 ≠ i
  rwa [List.filter_cons_of_neg (by simp), hothers] at hperm

theorem alloc (h : Holds m cells) (hi : read m i = none) (c : Cell) :
    Holds (alloc m i c) ((i, c) :: cells) :=
  ⟨h.perm.cons _, by
    rw [List.map_cons, List.nodup_cons]
    exact ⟨h.not_mem_of_read hi, h.nodup⟩⟩

/-! ### A cell among others -/

variable {pre post : List (Id × Cell)}

omit [DecidableEq Id] in
theorem to_front (h : Holds m (pre ++ (i, c) :: post)) : Holds m ((i, c) :: (pre ++ post)) :=
  h.trans List.perm_middle

theorem read_middle (h : Holds m (pre ++ (i, c) :: post)) : Memory.read m i = some c :=
  h.to_front.read_eq

theorem write_middle (h : Holds m (pre ++ (i, c) :: post)) (c' : Cell) :
    Holds (Memory.write m i c') (pre ++ (i, c') :: post) :=
  (h.to_front.write c').trans List.perm_middle.symm

omit [DecidableEq Id] in
theorem length_le {cells' : List (Id × Cell)} (h : Holds m (cells ++ cells')) :
    cells.length ≤ m.length := by
  rw [h.perm.length_eq, List.length_append]
  exact Nat.le_add_right _ _

end Holds

end Memory
