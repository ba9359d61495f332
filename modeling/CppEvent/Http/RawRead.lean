import CppEvent.Http.Decoding

/-!
# Reading a body into memory

`http_body::read(void*, size)` stores every piece it reads at the start of the memory it is given.
It counts like the `read` into a string and leaves the socket in the same place, but what it stores
is the data of the body only while no call goes over the end of a chunk (`readInto_agrees_iff`).
-/

namespace CppEvent

open Coroutine

namespace HttpBody

/-- In a row of calls of `read(void*, n)` with these sizes, on a body with `data` left, every call
returns the count that the `read` into a string would return in the same state, and stores what that
read would append, which is the next data; whatever the memory held before. -/
def AgreesAlong : Bytes → List Nat → BodySocket → Prop
  | _, [], _ => True
  | data, n :: ns, b => ∀ dest : Bytes, n ≤ dest.length → ∃ dest' got count b₁ b₂,
      (readInto dest n).run b = (.returned (dest', count), b₁) ∧
      (read n).run b = (.returned (got, count), b₂) ∧
      got = data.take n ∧ dest'.take count = got ∧ AgreesAlong (data.drop n) ns b₁

/-! ## What storing at the start does -/

theorem getElem?_storeAt {dest bs : Bytes} {i : Nat} (h : bs.length ≤ i) :
    (storeAt dest bs)[i]? = dest[i]? := by
  rw [storeAt, List.getElem?_append_right h, List.getElem?_drop]
  congr 1
  omega

theorem getElem?_foldl_storeAt {pieces : List Bytes} {i : Nat} (h : ∀ p ∈ pieces, p.length ≤ i)
    (dest : Bytes) : (pieces.foldl storeAt dest)[i]? = dest[i]? := by
  induction pieces generalizing dest with
  | nil => rfl
  | cons p pieces ih =>
    rw [List.foldl_cons, ih (fun q hq => h q (List.mem_cons_of_mem p hq)),
      getElem?_storeAt (h p List.mem_cons_self)]

/-- One piece is stored as it is; of two or more the memory never holds all. -/
theorem foldl_storeAt_eq_iff {pieces : List Bytes} (hne : [] ∉ pieces) {n : Nat}
    (hn : pieces.flatten.length ≤ n) :
    (∀ dest : Bytes, n ≤ dest.length →
      (pieces.foldl storeAt dest).take pieces.flatten.length = pieces.flatten) ↔
      pieces.length ≤ 1 := by
  refine ⟨fun hall => ?_, fun hlen dest hdest => ?_⟩
  · -- were there two pieces, the last byte of the whole would never be stored
    by_contra hlen
    have hshort : ∀ p ∈ pieces, p.length ≤ pieces.flatten.length - 1 := fun p hp => by
      have := List.length_lt_length_flatten hne (by omega) hp
      omega
    obtain ⟨p, hp⟩ := List.exists_mem_of_length_pos (l := pieces) (by omega)
    have hlt := List.length_lt_length_flatten hne (by omega) hp
    have hidx : pieces.flatten.length - 1 < pieces.flatten.length := by omega
    have hlast := List.getElem?_eq_getElem hidx
    have hget := congrArg (·[pieces.flatten.length - 1]?)
      (hall (List.replicate n (pieces.flatten[pieces.flatten.length - 1] + 1)) (by simp))
    rw [List.getElem?_take_of_lt (by omega), getElem?_foldl_storeAt hshort, hlast,
      List.getElem?_replicate, if_pos (by omega), Option.some.injEq] at hget
    simp at hget
  · match pieces with
    | [] => rfl
    | [p] => simp [storeAt]
    | p :: q :: rest => simp at hlen

/-- `read(void*)` does what the `read` into a string does, in a row of calls, exactly if no call
takes data from both sides of the end of a chunk. -/
theorem readInto_agrees_iff {l : Left} {b : BodySocket} {rest : Bytes} (h : l.At b rest)
    (ns : List Nat) :
    AgreesAlong l.data ns b ↔ ∀ i (hi : i < ns.length),
      ¬ List.Straddles (l.pieces.map List.length) (ns.take i).sum ns[i] := by
  induction ns generalizing l b with
  | nil => simp [AgreesAlong]
  | cons n ns ih =>
    have hdata : (l.pieces.takeFlat n).flatten = l.data.take n := List.flatten_takeFlat n l.pieces
    have hcount : (l.pieces.takeFlat n).flatten.length = min n l.data.length := by
      rw [hdata, List.length_take]
    have hone : (∀ dest : Bytes, n ≤ dest.length →
        ((l.pieces.takeFlat n).foldl storeAt dest).take (min n l.data.length) = l.data.take n) ↔
        ¬ List.Straddles (l.pieces.map List.length) 0 n := by
      rw [← List.one_lt_length_takeFlat l.nil_not_mem_pieces, Nat.not_lt,
        ← foldl_storeAt_eq_iff (n := n) (List.nil_not_mem_takeFlat n l.nil_not_mem_pieces)
          (by omega), hcount, hdata]
    -- the calls after the first, from where it leaves the body
    have hrest {l' : Left} {b₁ : BodySocket} (hat : l'.At b₁ rest)
        (hpieces : l'.pieces = l.pieces.dropFlat n) :
        AgreesAlong (l.data.drop n) ns b₁ ↔ ∀ i (hi : i < ns.length),
          ¬ List.Straddles (l.pieces.map List.length) (n + (ns.take i).sum) ns[i] := by
      have hdrop : l'.data = l.data.drop n := by
        rw [Left.data, hpieces, List.flatten_dropFlat]
        rfl
      rw [← hdrop, ih hat]
      simp only [hpieces, List.straddles_dropFlat]
    constructor
    · rintro hagree (_ | i) hi
      · refine hone.mp fun dest hdest => ?_
        obtain ⟨dest', got, count, b₁, b₂, hrun, _, rfl, htake, _⟩ := hagree dest hdest
        obtain ⟨_, _, hrun', _⟩ := readInto_run dest n h
        rw [hrun, Int.toNat_natCast] at hrun'
        obtain ⟨⟨rfl, rfl⟩, _⟩ : (_ ∧ _) ∧ _ := by simpa using hrun'
        exact htake
      · obtain ⟨_, _, _, b₁, _, hrun, _, _, _, hagree'⟩ :=
          hagree (List.replicate n 0) (by simp)
        obtain ⟨l', b', hrun', hmoves, hpieces⟩ := readInto_run (List.replicate n 0) n h
        obtain rfl : b₁ = b' := by
          rw [hrun] at hrun'
          exact (Prod.mk.inj hrun').2
        rw [List.take_succ_cons, List.sum_cons]
        exact (hrest (hmoves.at h) hpieces).mp hagree' i (by simpa using hi)
    · intro hall dest hdest
      obtain ⟨l', b₁, hrun₁, hmoves, hpieces⟩ := readInto_run dest n h
      obtain ⟨_, b₂, hrun₂, _⟩ := read_run n h
      refine ⟨_, _, _, b₁, b₂, hrun₁, hrun₂, by rw [Int.toNat_natCast], ?_, ?_⟩
      · rw [Int.toNat_natCast]
        exact hone.mpr (hall 0 (by simp)) dest hdest
      · refine (hrest (hmoves.at h) hpieces).mpr fun i hi => ?_
        have := hall (i + 1) (by simpa using hi)
        rwa [List.take_succ_cons, List.sum_cons] at this

/-- A body reader before `abcd`, which comes in one packet. -/
def beforeAbcd : BodySocket :=
  { body := { incoming := 0, ended := false }
    sock := Socket.new [.data { bytes := ChunkedBody.abcd.wire, nonempty := by decide, length_le := by decide }]
      fun _ => .stalled }

theorem at_beforeAbcd : (Left.before .abcd).At beforeAbcd [] := by
  refine ⟨rfl, ?_⟩
  rw [beforeAbcd, Socket.pending_new]
  rfl

theorem not_agreesAlong_abcd : ∃ b₁ b₂,
    (readInto (ascii "____") 4).run beforeAbcd = (.returned (ascii "cd__", 4), b₁) ∧
    (read 4).run beforeAbcd = (.returned (ascii "abcd", 4), b₂) ∧
    ¬ AgreesAlong (ascii "abcd") [4] beforeAbcd := by
  obtain ⟨_, b₁, hrun₁, _⟩ := readInto_run (ascii "____") 4 at_beforeAbcd
  obtain ⟨_, b₂, hrun₂, _⟩ := read_run 4 at_beforeAbcd
  refine ⟨b₁, b₂, hrun₁, hrun₂, fun hagree => ?_⟩
  obtain ⟨_, _, _, _, _, hrun, _, rfl, htake, _⟩ := hagree (ascii "____") (by decide)
  rw [show ((4 : Nat) : Int) = 4 from rfl, hrun₁] at hrun
  obtain ⟨⟨rfl, rfl⟩, _⟩ : (_ ∧ _) ∧ _ := by simpa using hrun
  exact absurd htake (by decide)

theorem readInto_agrees_abcd :
    AgreesAlong (ascii "abcd") [1, 1, 2] beforeAbcd ↔ ∀ i (hi : i < [1, 1, 2].length),
      ¬ List.Straddles [2, 2] ([1, 1, 2].take i).sum [1, 1, 2][i] :=
  readInto_agrees_iff at_beforeAbcd [1, 1, 2]

end HttpBody

end CppEvent
