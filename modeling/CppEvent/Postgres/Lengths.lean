import CppEvent.Postgres.Layout
import CppEvent.Postgres.Session

/-!
# Counts and lengths

`increment`, `serialize` and `set_size` narrow what they count to the 16 or 32 bits of a field. The
fields that a server reads are the true numbers exactly if these are in range (`lengths_exact_iff`).
-/

namespace CppEvent

open Coroutine FrontendMessage

/-- As a signed field has it, a length is itself up to `2 ^ 31`. -/
theorem toInt32_mod_eq_iff {n : Nat} : toInt32 (n % 2 ^ 32) = n ↔ n < 2 ^ 31 := by
  rw [toInt32]
  split
  · omega
  · omega

/-! ## Values -/

/-- The bytes are these values one behind the other, each behind a signed length field that is its
length, or negative for null. -/
def Counts : List (Option Bytes) → Bytes → Prop
  | [], p => p = []
  | value :: values, p => ∃ len rest, takeU32 p = some (len, rest) ∧
      match value with
      | some text => toInt32 len = text.length ∧ ∃ rest', rest = text ++ rest' ∧ Counts values rest'
      | none => toInt32 len < 0 ∧ Counts values rest

theorem counts_iff (values : List (Option Bytes)) : Counts values (values.flatMap encodeValue) ↔
    ∀ value ∈ values, ∀ text, value = some text → text.length < 2 ^ 31 := by
  induction values with
  | nil => exact iff_of_true rfl (by simp)
  | cons value values ih =>
    rw [List.forall_mem_cons, ← ih, List.flatMap_cons, Counts]
    cases value with
    | none =>
      rw [encodeValue, takeU32_writeU32Be]
      constructor
      · rintro ⟨len, rest, htake, -, hcounts⟩
        obtain ⟨-, rfl⟩ := Prod.mk.inj (Option.some.inj htake)
        exact ⟨fun text h => (by cases h), hcounts⟩
      · rintro ⟨-, hcounts⟩
        exact ⟨_, _, rfl, by decide, hcounts⟩
    | some text =>
      rw [encodeValue, List.append_assoc, takeU32_writeU32Be]
      constructor
      · rintro ⟨len, rest, htake, hlen, rest', hrest, hcounts⟩
        obtain ⟨rfl, rfl⟩ := Prod.mk.inj (Option.some.inj htake)
        obtain rfl := List.append_cancel_left hrest
        refine ⟨fun text' h => ?_, hcounts⟩
        obtain rfl := Option.some.inj h
        exact toInt32_mod_eq_iff.mp hlen
      · rintro ⟨hlt, hcounts⟩
        exact ⟨_, _, rfl, toInt32_mod_eq_iff.mpr (hlt text rfl), _, rfl, hcounts⟩

/-- The bytes are a count and as many values as it says, which are these. -/
def CountsAll (values : List (Option Bytes)) (p : Bytes) : Prop :=
  ∃ n rest, takeU16 p = some (n, rest) ∧ n = values.length ∧ Counts values rest

theorem countsAll_iff (values : List (Option Bytes)) : CountsAll values (counted encodeValue values) ↔
    values.length < 2 ^ 16 ∧ ∀ value ∈ values, ∀ text, value = some text → text.length < 2 ^ 31 := by
  have htake : takeU16 (counted encodeValue values) =
      some (values.length % 2 ^ 16, values.flatMap encodeValue) := by
    show some (readU16Be _ _, values.flatMap encodeValue) = _
    rw [readU16Be_writeU16Be]
  rw [CountsAll, htake, ← counts_iff]
  constructor
  · rintro ⟨n, rest, heq, hn, hcounts⟩
    obtain ⟨rfl, rfl⟩ := Prod.mk.inj (Option.some.inj heq)
    exact ⟨by omega, hcounts⟩
  · rintro ⟨hlt, hcounts⟩
    exact ⟨_, _, rfl, Nat.mod_eq_of_lt hlt, hcounts⟩

/-! ## Messages -/

/-- A type byte, and a length field that counts itself and all that follows. -/
def MeasuresItself (bs : Bytes) : Prop :=
  ∃ kind p len rest, bs = kind :: p ∧ takeU32 p = some (len, rest) ∧ len = 4 + rest.length

theorem FrontendMessage.wire_eq {m : FrontendMessage} (hm : m.isStartup = false) :
    m.wire = m.kind :: (writeU32Be (m.body.length + 4) ++ m.body) := by
  cases m with
  | startup parameters => cases hm
  | _ => rfl

theorem measuresItself_iff {m : FrontendMessage} (hm : m.isStartup = false) :
    MeasuresItself m.wire ↔ m.body.length + 4 < 2 ^ 32 := by
  rw [wire_eq hm]
  constructor
  · rintro ⟨kind, p, len, rest, hcons, htake, hlen⟩
    obtain ⟨-, rfl⟩ := List.cons.inj hcons
    rw [takeU32_writeU32Be] at htake
    obtain ⟨rfl, rfl⟩ := Prod.mk.inj (Option.some.inj htake)
    omega
  · intro hlt
    exact ⟨_, _, _, _, rfl, takeU32_writeU32Be _ _, by omega⟩

/-! ## What is stored and sent -/

namespace PgConnection

/-- Every count and every length that `store`, `query` and `prepare_query` have produced is the number
of what it stands for. -/
structure ExactLengths (c : PgConnection) (calls : List (StoreArg × List StoreArg)) (q : Bytes) :
    Prop where
  params : ∃ p, PgParams.new.storeCalls calls = (p, .ok ()) ∧
    CountsAll ((PgParams.stored calls).map StoreArg.content) p.buffer
  query : ∃ message, c.output.Wrote message ((query q).run c).2.output ∧ MeasuresItself message
  prepare : ∃ p parse bind, PgParams.new.storeCalls calls = (p, .ok ()) ∧
    c.output.Wrote (parse ++ bind) ((prepareQuery q p).run c).2.output ∧
    parse.length = 1 + 4 + (1 + (q.length + 1) + 2) ∧ MeasuresItself parse ∧ MeasuresItself bind

/-- No count and no length leaves its field. -/
structure FitsLengths (calls : List (StoreArg × List StoreArg)) (q : Bytes) : Prop where
  count : (PgParams.stored calls).length < 2 ^ 16
  values : ∀ a ∈ PgParams.stored calls, ∀ text, a.content = some text → text.length < 2 ^ 31
  query : q.length + 8 < 2 ^ 32
  params : (counted encodeValue ((PgParams.stored calls).map StoreArg.content)).length + 10 < 2 ^ 32

theorem exactQuery_iff {c : PgConnection} (hc : c.output.SendsSucceed) (hready : c.queryReady = true)
    (q : Bytes) :
    (∃ message, c.output.Wrote message ((query q).run c).2.output ∧ MeasuresItself message) ↔
      q.length + 5 < 2 ^ 32 := by
  have hwrote := query_wrote hc q
  rw [if_pos hready] at hwrote
  have hmeasures := measuresItself_iff (m := .query q) rfl
  rw [body, text, List.length_append, List.length_singleton, Nat.add_assoc] at hmeasures
  rw [← hmeasures]
  constructor
  · rintro ⟨message, hmessage, hself⟩
    rwa [← hmessage.unique hwrote]
  · intro hself
    exact ⟨_, hwrote, hself⟩

theorem exactPrepare_iff {c : PgConnection} (hc : c.output.SendsSucceed)
    (hready : c.queryReady = true) (q : Bytes) {params : PgParams} {values : List (Option Bytes)}
    (hparams : params.buffer = counted encodeValue values) :
    (∃ parse bind, c.output.Wrote (parse ++ bind) ((prepareQuery q params).run c).2.output ∧
        parse.length = 1 + 4 + (1 + (q.length + 1) + 2) ∧ MeasuresItself parse ∧
        MeasuresItself bind) ↔
      q.length + 8 < 2 ^ 32 ∧ (counted encodeValue values).length + 10 < 2 ^ 32 := by
  have hwrote := prepareQuery_wrote hc q hparams
  rw [if_pos hready, prepared, List.flatMap_cons, List.flatMap_singleton] at hwrote
  have hparseBody : (FrontendMessage.parse [] q []).body.length = 1 + (q.length + 1) + 2 := by
    simp only [body, text, counted, List.length_append, List.length_cons, List.length_nil]
    rfl
  have hbindBody : (FrontendMessage.bind [] [] [] values []).body.length =
      (counted encodeValue values).length + 6 := by
    rw [body]
    generalize counted encodeValue values = params
    simp only [text, counted, List.length_append, List.length_cons, List.length_nil]
    rw [show (writeU16Be 0).length = 2 from rfl]
    simp only [List.flatMap_nil, List.length_nil]
    omega
  have hparse := measuresItself_iff (m := .parse [] q []) rfl
  have hbind := measuresItself_iff (m := .bind [] [] [] values []) rfl
  rw [hparseBody] at hparse
  rw [hbindBody] at hbind
  have hlength : (FrontendMessage.parse [] q []).wire.length = 1 + 4 + (1 + (q.length + 1) + 2) := by
    rw [wire_eq rfl, List.length_cons, List.length_append, length_writeU32Be, hparseBody]
    omega
  constructor
  · rintro ⟨parse, bind, hsent, hlen, hself, hself'⟩
    obtain ⟨rfl, rfl⟩ := List.append_inj (hsent.unique hwrote) (hlen.trans hlength.symm)
    have := hparse.mp hself
    have := hbind.mp hself'
    omega
  · rintro ⟨hq, hp⟩
    exact ⟨_, _, hwrote, hlength, hparse.mpr (by omega), hbind.mpr (by omega)⟩

/-- Whatever is stored and asked for, the counts and lengths of a query that is sent are exact exactly
if they are in range; nothing is thrown where they are not. -/
theorem lengths_exact_iff {calls : List (StoreArg × List StoreArg)}
    (hcalls : ∀ a ∈ PgParams.stored calls, a.InRange) {c : PgConnection}
    (hc : c.output.SendsSucceed) (hready : c.queryReady = true) (q : Bytes) :
    c.ExactLengths calls q ↔ FitsLengths calls q := by
  obtain ⟨p, hstore, -⟩ := PgParams.storeCalls_run calls (show PgParams.new.Holds [] from rfl) hcalls
  have hbuffer := buffer_storeCalls hcalls
  rw [hstore] at hbuffer
  have hvalues : (∀ v ∈ (PgParams.stored calls).map StoreArg.content, ∀ text, v = some text →
      text.length < 2 ^ 31) ↔
      ∀ a ∈ PgParams.stored calls, ∀ text, a.content = some text → text.length < 2 ^ 31 := by
    rw [List.forall_mem_map]
  have hcounts := countsAll_iff ((PgParams.stored calls).map StoreArg.content)
  rw [← hbuffer, List.length_map, hvalues] at hcounts
  have hprepare := exactPrepare_iff hc hready q hbuffer
  constructor
  · rintro ⟨⟨p₁, hp₁, hparams⟩, -, p₂, parse, bind, hp₂, hsent, hlen, hself, hself'⟩
    obtain rfl := (Prod.mk.inj (hp₁.symm.trans hstore)).1
    obtain rfl := (Prod.mk.inj (hp₂.symm.trans hstore)).1
    obtain ⟨hcount, hlengths⟩ := hcounts.mp hparams
    obtain ⟨hq, hp⟩ := hprepare.mp ⟨parse, bind, hsent, hlen, hself, hself'⟩
    exact ⟨hcount, hlengths, hq, hp⟩
  · rintro ⟨hcount, hlengths, hq, hp⟩
    obtain ⟨parse, bind, hexact⟩ := hprepare.mpr ⟨hq, hp⟩
    exact ⟨⟨p, hstore, hcounts.mpr ⟨hcount, hlengths⟩⟩, (exactQuery_iff hc hready q).mpr (by omega),
      p, parse, bind, hstore, hexact⟩

def idling : PgConnection where
  sock := Socket.new [] fun _ => .accepted 0
  queryReady := true

theorem idling_sendsSucceed : idling.output.SendsSucceed := fun _ => ⟨0, rfl⟩

theorem lengths_exact_letter : ∃ c : PgConnection, c.queryReady = true ∧
    (c.ExactLengths [(.value .string (ascii "a"), [])] (ascii "select $1") ↔
      FitsLengths [(.value .string (ascii "a"), [])] (ascii "select $1")) := by
  refine ⟨idling, rfl, lengths_exact_iff (fun a ha => ?_) idling_sendsSucceed rfl _⟩
  obtain rfl : a = .value .string (ascii "a") := by simpa [PgParams.stored] using ha
  trivial

/-- Of 65536 parameters the field counts none. -/
theorem not_lengths_exact : ¬ ∀ (calls : List (StoreArg × List StoreArg)) (c : PgConnection)
    (q : Bytes), (∀ a ∈ PgParams.stored calls, a.InRange) → c.output.SendsSucceed →
    c.queryReady = true → c.ExactLengths calls q := by
  intro h
  let calls : List (StoreArg × List StoreArg) := List.replicate 65536 (.optional .bool none, [])
  have hlength : (PgParams.stored calls).length = 65536 := by
    rw [PgParams.stored, List.length_flatMap, List.map_replicate, List.sum_replicate]
    rfl
  have hrange : ∀ a ∈ PgParams.stored calls, a.InRange := by
    intro a ha
    obtain ⟨call, hcall, ha⟩ := List.mem_flatMap.mp ha
    obtain rfl := List.eq_of_mem_replicate hcall
    obtain rfl := List.mem_singleton.mp ha
    trivial
  obtain ⟨p, hstore, hcounts⟩ := (h calls idling [] hrange idling_sendsSucceed rfl).params
  have hbuffer := buffer_storeCalls hrange
  rw [hstore] at hbuffer
  rw [hbuffer, countsAll_iff, List.length_map, hlength] at hcounts
  exact absurd hcounts.1 (by decide)

end PgConnection

end CppEvent
