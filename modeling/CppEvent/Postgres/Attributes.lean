import CppEvent.Postgres.Agreement

/-!
# The grammar of an exchange

The attributes of the first messages of client and server as RFC 5802 has them. `scram` writes a user
name as it is, and reads a server's message without looking at the names of its attributes, the groups
of its salt or the digits of its count. When a message is nevertheless what the grammar says is
`firstMsg_unambiguous_iff` and `resolve_grammar_iff`.
-/

namespace CppEvent

open Coroutine

abbrev comma : Byte := ','.toUInt8

/-! ## The client's first message -/

/-- The decoding of a `saslname`: `=2C` stands for a comma, `=3D` for `=`, and nothing else that begins
with `=` is allowed. -/
def decodeSaslName : Bytes → Option Bytes
  | [] => some []
  | c :: cs =>
      if c ≠ '='.toUInt8 then (decodeSaslName cs).map (c :: ·)
      else
        match cs with
        | 50 :: 67 :: cs => (decodeSaslName cs).map (','.toUInt8 :: ·)
        | 51 :: 68 :: cs => (decodeSaslName cs).map ('='.toUInt8 :: ·)
        | _ => none

/-- Behind its header the message has two attributes: the name, which is decoded to this user, and this
nonce. -/
def Unambiguous (user nonce msg : Bytes) : Prop :=
  ∃ attributes name, msg = ascii "n,," ++ attributes ∧
    attributes.splitOn comma = [ascii "n=" ++ name, ascii "r=" ++ nonce] ∧
    decodeSaslName name = some user

theorem decodeSaslName_self {name : Bytes} (h : '='.toUInt8 ∉ name) :
    decodeSaslName name = some name := by
  induction name with
  | nil => rfl
  | cons c cs ih =>
    rw [List.mem_cons, not_or] at h
    have hstep : decodeSaslName (c :: cs) = (decodeSaslName cs).map (c :: ·) := by
      rw [decodeSaslName.eq_def]
      exact if_pos (Ne.symm h.1)
    rw [hstep, ih h.2]
    rfl

/-- What is decoded from a name is not longer, and shorter if anything had to be decoded. -/
theorem length_decodeSaslName {name user : Bytes} (h : decodeSaslName name = some user) :
    user.length ≤ name.length ∧ ('='.toUInt8 ∈ name → user.length < name.length) := by
  induction hn : name.length using Nat.strong_induction_on generalizing name user with
  | _ n ih =>
    subst hn
    cases name with
    | nil =>
      obtain rfl := Option.some.inj h
      simp
    | cons c cs =>
      have hescape {e : Byte} {rest : Bytes} (hlen : cs.length = rest.length + 2)
          (hrest : (decodeSaslName rest).map (e :: ·) = some user) : user.length ≤ cs.length := by
        obtain ⟨user, hcs, rfl⟩ := Option.map_eq_some_iff.mp hrest
        have := (ih rest.length (by rw [List.length_cons]; omega) hcs rfl).1
        rw [List.length_cons]
        omega
      rw [decodeSaslName.eq_def] at h
      by_cases hc : c ≠ '='.toUInt8
      · obtain ⟨user, hcs, rfl⟩ := Option.map_eq_some_iff.mp ((if_pos hc).symm.trans h)
        obtain ⟨hle, hlt⟩ := ih cs.length (Nat.lt_succ_self _) hcs rfl
        rw [List.length_cons, List.length_cons, List.mem_cons, or_iff_right (Ne.symm hc)]
        exact ⟨by omega, fun hmem => by have := hlt hmem; omega⟩
      · have hle : user.length ≤ cs.length := by
          replace h := (if_neg hc).symm.trans h
          split at h
          · exact hescape rfl h
          · exact hescape rfl h
          · cases h
        rw [List.length_cons]
        exact ⟨by omega, fun _ => by omega⟩

theorem decodeSaslName_self_iff {name : Bytes} :
    decodeSaslName name = some name ↔ '='.toUInt8 ∉ name := by
  refine ⟨fun h hmem => ?_, decodeSaslName_self⟩
  exact Nat.lt_irrefl _ ((length_decodeSaslName h).2 hmem)

namespace Scram

theorem firstMsgBare_eq (user nonce : Bytes) :
    firstMsgBare user nonce = ascii "n=" ++ user ++ comma :: (ascii "r=" ++ nonce) := by
  rw [firstMsgBare, List.append_assoc, List.append_assoc, List.append_assoc]
  rfl

/-- The attributes can be told apart exactly if the user name has no comma. -/
theorem splitOn_firstMsgBare {user nonce : Bytes} (hnonce : comma ∉ nonce) (huser : comma ∉ user) :
    (firstMsgBare user nonce).splitOn comma = [ascii "n=" ++ user, ascii "r=" ++ nonce] := by
  have hname : comma ∉ ascii "n=" ++ user := by simp [huser]; decide
  have hattribute : comma ∉ ascii "r=" ++ nonce := by simp [hnonce]; decide
  rw [firstMsgBare_eq, List.splitOn_append_cons_self_of_not_mem hname,
    List.splitOn_eq_singleton hattribute]

theorem length_splitOn_firstMsgBare (nonce : Bytes) {u : Bytes} (huser : comma ∈ u) :
    2 < ((firstMsgBare u nonce).splitOn comma).length := by
  obtain ⟨before, after, rfl⟩ := List.append_of_mem huser
  have hpos (s : Bytes) : 0 < (s.splitOn comma).length :=
    List.length_pos_iff.mpr (List.splitOn_ne_nil comma s)
  have hsplit : ascii "n=" ++ (before ++ comma :: after) ++ comma :: (ascii "r=" ++ nonce) =
      (ascii "n=" ++ before) ++ comma :: (after ++ comma :: (ascii "r=" ++ nonce)) := by simp
  rw [firstMsgBare_eq, hsplit, List.splitOn_append_cons_self, List.splitOn_append_cons_self,
    List.length_append, List.length_append]
  have := hpos (ascii "n=" ++ before)
  have := hpos after
  have := hpos (ascii "r=" ++ nonce)
  omega

/-- The client's first message says which user it is for exactly if the name has neither a comma nor
an `=`. -/
theorem firstMsg_unambiguous_iff {nonce : Bytes} (hnonce : comma ∉ nonce) (user : Bytes)
    (s : Scram) : ∃ msg s', (generateClientFirstMsg user nonce).run s = (.returned msg, s') ∧
      (Unambiguous user nonce msg ↔ comma ∉ user ∧ '='.toUInt8 ∉ user) := by
  refine ⟨_, _, generateClientFirstMsg_run s user nonce, ?_⟩
  constructor
  · rintro ⟨attributes, name, hmsg, hsplit, hname⟩
    obtain rfl := List.append_cancel_left hmsg
    have huser : comma ∉ user := by
      intro hmem
      have := length_splitOn_firstMsgBare nonce hmem
      rw [hsplit] at this
      exact Nat.lt_irrefl 2 this
    refine ⟨huser, ?_⟩
    rw [splitOn_firstMsgBare hnonce huser] at hsplit
    obtain rfl := List.append_cancel_left (List.cons.inj hsplit).1
    exact decodeSaslName_self_iff.mp hname
  · rintro ⟨huser, hname⟩
    exact ⟨_, user, rfl, splitOn_firstMsgBare hnonce huser, decodeSaslName_self hname⟩

/-- Any user, in an exchange of which nothing is known. -/
theorem firstMsg_unambiguous_user : ∃ msg s',
    (generateClientFirstMsg (ascii "user") (ascii "abc")).run new = (.returned msg, s') ∧
      (Unambiguous (ascii "user") (ascii "abc") msg ↔
        comma ∉ ascii "user" ∧ '='.toUInt8 ∉ ascii "user") :=
  firstMsg_unambiguous_iff (by decide) (ascii "user") new

/-- A user who names another nonce first. -/
theorem not_firstMsg_unambiguous : ¬ ∀ (user nonce msg : Bytes) (s s' : Scram), comma ∉ nonce →
    (generateClientFirstMsg user nonce).run s = (.returned msg, s') → Unambiguous user nonce msg := by
  intro h
  obtain ⟨attributes, name, hmsg, hsplit, -⟩ :=
    h (ascii "a,r=x") (ascii "abc") _ new _ (by decide) (generateClientFirstMsg_run _ _ _)
  obtain rfl := List.append_cancel_left hmsg
  have := length_splitOn_firstMsgBare (ascii "abc") (u := ascii "a,r=x") (by decide)
  rw [hsplit] at this
  exact Nat.lt_irrefl 2 this

/-! ## The server's first message -/

/-- What follows an attribute that is the last one: nothing, or a comma before less than a name. -/
def Ends (rest : Bytes) : Prop := rest = [] ∨ ∃ cs, rest = comma :: cs ∧ cs.length < 2

/-- Three attributes, whatever their names are. -/
def LooseFirst (msg nonce salt count : Bytes) : Prop := ∃ a₁ a₂ b₁ b₂ c₁ c₂ rest,
  msg = a₁ :: a₂ :: (nonce ++ comma :: b₁ :: b₂ :: (salt ++ comma :: c₁ :: c₂ :: (count ++ rest))) ∧
    comma ∉ nonce ∧ comma ∉ salt ∧ comma ∉ count ∧ Ends rest

theorem paramsFrom_ends {text rest : Bytes} (htext : comma ∉ text) (hrest : Ends rest)
    (param : Bytes) : paramsFrom param (text ++ rest) = [param ++ text] := by
  rw [paramsFrom_append htext]
  rcases hrest with rfl | ⟨cs, rfl, hcs⟩
  · rfl
  · rw [paramsFrom.eq_def]
    refine (if_pos rfl).trans ?_
    cases cs with
    | nil => rfl
    | cons c cs =>
      cases cs with
      | nil => rfl
      | cons => exact absurd hcs (by simp)

theorem paramsFrom_cases (t : Bytes) : ∃ text rest, comma ∉ text ∧ t = text ++ rest ∧
    ((Ends rest ∧ paramsFrom [] t = [text]) ∨
      ∃ y z cs, rest = comma :: y :: z :: cs ∧ paramsFrom [] t = text :: paramsFrom [] cs) := by
  by_cases hmem : comma ∈ t
  · obtain ⟨text, rest, rfl, htext⟩ := List.eq_append_cons_of_mem hmem
    refine ⟨text, comma :: rest, htext, rfl, ?_⟩
    match rest with
    | y :: z :: cs =>
      exact .inr ⟨y, z, cs, rfl, by rw [paramsFrom_append htext, paramsFrom_comma]; rfl⟩
    | [] => exact .inl ⟨.inr ⟨[], rfl, by decide⟩, paramsFrom_ends htext (.inr ⟨[], rfl, by decide⟩) []⟩
    | [y] =>
      have hends : Ends [comma, y] := .inr ⟨[y], rfl, Nat.lt_succ_self 1⟩
      exact .inl ⟨hends, paramsFrom_ends htext hends []⟩
  · exact ⟨t, [], hmem, (List.append_nil t).symm, .inl ⟨.inl rfl, paramsFrom_last hmem⟩⟩

theorem paramsFrom_ne_nil (t : Bytes) : paramsFrom [] t ≠ [] := by
  obtain ⟨text, rest, -, -, ⟨-, hparams⟩ | ⟨y, z, cs, -, hparams⟩⟩ := paramsFrom_cases t
  · simp [hparams]
  · simp [hparams]

theorem paramsFrom_eq_singleton_iff {t text : Bytes} :
    paramsFrom [] t = [text] ↔ comma ∉ text ∧ ∃ rest, t = text ++ rest ∧ Ends rest := by
  constructor
  · intro h
    obtain ⟨text', rest, htext, ht, ⟨hends, hparams⟩ | ⟨y, z, cs, -, hparams⟩⟩ := paramsFrom_cases t
    · obtain rfl := (List.cons.inj (hparams.symm.trans h)).1
      exact ⟨htext, rest, ht, hends⟩
    · exact absurd (List.cons.inj (hparams.symm.trans h)).2 (paramsFrom_ne_nil cs)
  · rintro ⟨htext, rest, rfl, hends⟩
    exact paramsFrom_ends htext hends []

theorem paramsFrom_eq_cons_iff {t text : Bytes} {ps : List Bytes} (hps : ps ≠ []) :
    paramsFrom [] t = text :: ps ↔ comma ∉ text ∧
      ∃ y z cs, t = text ++ comma :: y :: z :: cs ∧ paramsFrom [] cs = ps := by
  constructor
  · intro h
    obtain ⟨text', rest, htext, ht, ⟨-, hparams⟩ | ⟨y, z, cs, hrest, hparams⟩⟩ := paramsFrom_cases t
    · exact absurd (List.cons.inj (hparams.symm.trans h)).2.symm hps
    · obtain ⟨rfl, hcs⟩ := List.cons.inj (hparams.symm.trans h)
      exact ⟨htext, y, z, cs, by rw [ht, hrest], hcs⟩
  · rintro ⟨htext, y, z, cs, rfl, hcs⟩
    rw [paramsFrom_append htext, paramsFrom_comma, hcs]
    rfl

theorem serverParams_eq_iff {msg nonce salt count : Bytes} :
    serverParams msg = [nonce, salt, count] ↔ LooseFirst msg nonce salt count := by
  constructor
  · intro h
    match msg, h with
    | a₁ :: a₂ :: t, h =>
      obtain ⟨hnonce, b₁, b₂, t₁, rfl, h₁⟩ := (paramsFrom_eq_cons_iff (by simp)).mp h
      obtain ⟨hsalt, c₁, c₂, t₂, rfl, h₂⟩ := (paramsFrom_eq_cons_iff (by simp)).mp h₁
      obtain ⟨hcount, rest, rfl, hends⟩ := paramsFrom_eq_singleton_iff.mp h₂
      exact ⟨a₁, a₂, b₁, b₂, c₁, c₂, rest, rfl, hnonce, hsalt, hcount, hends⟩
  · rintro ⟨a₁, a₂, b₁, b₂, c₁, c₂, rest, rfl, hnonce, hsalt, hcount, hends⟩
    refine (paramsFrom_eq_cons_iff (by simp)).mpr ⟨hnonce, b₁, b₂, _, rfl, ?_⟩
    refine (paramsFrom_eq_cons_iff (by simp)).mpr ⟨hsalt, c₁, c₂, _, rfl, ?_⟩
    exact paramsFrom_eq_singleton_iff.mpr ⟨hcount, rest, rfl, hends⟩

/-- The server's first message as the grammar has it, for a client with this nonce: its nonce, its
salt with the bytes, its count with the number. -/
structure ServerFirst (clientNonce msg nonce saltText salt count : Bytes) (n : Nat) : Prop where
  eq : msg = ascii "r=" ++ nonce ++ ascii ",s=" ++ saltText ++ ascii ",i=" ++ count
  comma_not_mem : comma ∉ nonce
  front : clientNonce <+: nonce
  text : Base64Text saltText salt
  numeral : Numeral.IsNumeral (digit 10) count
  value : Numeral.value (digit 10) 10 count = n
  pos : 1 ≤ n
  lt : n < 2 ^ 63

/-- The message is taken for what the grammar says it is, and any other is thrown at. -/
def FollowsGrammar (s : Scram) (msg : Bytes) (r : Outcome Exn Unit × Scram) : Prop :=
  match r.1 with
  | .returned _ => ∃ nonce saltText salt count n,
      ServerFirst s.clientNonce msg nonce saltText salt count n ∧
        r.2.serverNonce = nonce ∧ r.2.salt = salt ∧ r.2.iterations = n
  | .threw _ => ¬ ∃ nonce saltText salt count n,
      ServerFirst s.clientNonce msg nonce saltText salt count n
  | .suspended => False
  | .undefined => False

/-- The message has not even three attributes, or its nonce is for another client, or its salt has a
character that is none of base64. -/
def Rejected (clientNonce msg : Bytes) : Prop := ∀ nonce salt count,
  LooseFirst msg nonce salt count → ¬ clientNonce <+: nonce ∨ ∃ c ∈ salt, ¬ IsBase64Char c

theorem comma_not_mem_text {text data : Bytes} (h : Base64Text text data) : comma ∉ text := by
  intro hmem
  exact absurd (base64Decode_ok_iff.mp ⟨data, base64Decode_text h⟩ comma hmem) (by decide)

theorem comma_not_mem_numeral {text : Bytes} (h : Numeral.IsNumeral (digit 10) text) :
    comma ∉ text := fun hmem => absurd (h.2 comma hmem) (by decide)

theorem convertToNum_numeral {text : Bytes} (h : Numeral.IsNumeral (digit 10) text)
    (hlt : Numeral.value (digit 10) 10 text < 2 ^ 63) :
    convertToNum text = some (Numeral.value (digit 10) 10 text : Int) :=
  convertToNum_leading text h.2 0 hlt

variable {s : Scram} {msg nonce saltText salt count : Bytes} {n : Nat}

theorem ServerFirst.loose (h : ServerFirst s.clientNonce msg nonce saltText salt count n) :
    LooseFirst msg nonce saltText count := by
  refine ⟨'r'.toUInt8, '='.toUInt8, 's'.toUInt8, '='.toUInt8, 'i'.toUInt8, '='.toUInt8, [], ?_,
    h.comma_not_mem, comma_not_mem_text h.text, comma_not_mem_numeral h.numeral, .inl rfl⟩
  rw [h.eq]
  simp [ascii]

theorem ServerFirst.resolve (h : ServerFirst s.clientNonce msg nonce saltText salt count n) :
    (resolveServerFirstMsg msg).run s = (.returned (), { s with
      serverFirstMsg := msg, serverNonce := nonce, salt := salt, iterations := n }) := by
  have hcount := convertToNum_numeral h.numeral (by rw [h.value]; exact h.lt)
  rw [h.value] at hcount
  exact resolve_returned_iff.mpr ⟨nonce, saltText, count, salt, n, serverParams_eq_iff.mpr h.loose,
    h.front, base64Decode_text h.text, hcount, rfl⟩

/-- A message that is thrown at has one of these faults; other faults are not noticed. -/
theorem resolve_threw_iff :
    (∃ e s', (resolveServerFirstMsg msg).run s = (.threw e, s')) ↔ Rejected s.clientNonce msg := by
  rw [resolveServerFirstMsg, Coro.run_modify_bind, Coro.run_get_bind]
  constructor
  · rintro ⟨e, s', hrun⟩ nonce salt count hloose
    simp only [serverParams_eq_iff.mpr hloose] at hrun
    by_cases hfront : s.clientNonce <+: nonce
    · refine .inr ?_
      by_contra hchars
      push Not at hchars
      obtain ⟨bytes, hbytes⟩ := base64Decode_ok_iff.mpr hchars
      rw [if_neg (not_not.mpr hfront), Coro.run_modify_bind, hbytes, Coro.ofExcept_ok,
        Coro.pure_bind, Coro.run_modify_bind] at hrun
      split at hrun
      · cases (Prod.mk.inj hrun).1
      · cases (Prod.mk.inj hrun).1
    · exact .inl hfront
  · intro h
    split
    · rename_i nonce salt count hparams
      by_cases hfront : s.clientNonce <+: nonce
      · have hchars := (h nonce salt count (serverParams_eq_iff.mp hparams)).resolve_left
          (not_not.mpr hfront)
        rw [if_neg (not_not.mpr hfront), Coro.run_modify_bind]
        cases hsalt : base64Decode salt with
        | ok bytes =>
          obtain ⟨c, hc, hforeign⟩ := hchars
          exact absurd (base64Decode_ok_iff.mp ⟨bytes, hsalt⟩ c hc) hforeign
        | error e => exact ⟨e, _, rfl⟩
      · rw [if_pos hfront]
        exact ⟨_, _, rfl⟩
    · exact ⟨_, _, rfl⟩

theorem ServerFirst.not_rejected (h : ServerFirst s.clientNonce msg nonce saltText salt count n) :
    ¬ Rejected s.clientNonce msg := by
  intro hrejected
  rcases hrejected _ _ _ h.loose with hfront | ⟨c, hc, hforeign⟩
  · exact hfront h.front
  · exact hforeign (base64Decode_ok_iff.mp ⟨salt, base64Decode_text h.text⟩ c hc)

/-- The first message of the server is read by its grammar exactly if it follows it, or has one of the
faults that are noticed. -/
theorem resolve_grammar_iff (s : Scram) (msg : Bytes) :
    FollowsGrammar s msg ((resolveServerFirstMsg msg).run s) ↔
      (∃ nonce saltText salt count n, ServerFirst s.clientNonce msg nonce saltText salt count n) ∨
        Rejected s.clientNonce msg := by
  constructor
  · intro h
    rcases hrun : (resolveServerFirstMsg msg).run s with ⟨outcome, s'⟩
    rw [hrun] at h
    cases outcome with
    | returned =>
      obtain ⟨nonce, saltText, salt, count, n, hfirst, -⟩ := h
      exact .inl ⟨nonce, saltText, salt, count, n, hfirst⟩
    | threw e => exact .inr (resolve_threw_iff.mp ⟨e, s', hrun⟩)
    | suspended => exact h.elim
    | undefined => exact h.elim
  · rintro (⟨nonce, saltText, salt, count, n, hfirst⟩ | hrejected)
    · rw [hfirst.resolve]
      exact ⟨nonce, saltText, salt, count, n, hfirst, rfl, rfl, rfl⟩
    · obtain ⟨e, s', hrun⟩ := resolve_threw_iff.mpr hrejected
      rw [hrun]
      rintro ⟨nonce, saltText, salt, count, n, hfirst⟩
      exact hfirst.not_rejected hrejected

/-- The names of the attributes are not looked at. -/
theorem not_resolve_grammar : ∃ s msg,
    ((resolveServerFirstMsg msg).run s).1 = .returned () ∧
      ¬ FollowsGrammar s msg ((resolveServerFirstMsg msg).run s) := by
  let s : Scram := { new with clientNonce := ascii "abc" }
  let msg := ascii "x=abcdef,y=QUJD,z=1"
  have hrun : (resolveServerFirstMsg msg).run s = (.returned (), { s with
      serverFirstMsg := msg, serverNonce := ascii "abcdef", salt := ascii "ABC",
      iterations := 1 }) := by decide +kernel
  refine ⟨s, msg, by rw [hrun], ?_⟩
  rw [hrun]
  rintro ⟨nonce, saltText, salt, count, n, hfirst, -⟩
  have heq := hfirst.eq
  rw [List.append_assoc, List.append_assoc, List.append_assoc, List.append_assoc] at heq
  exact absurd (List.cons.inj heq).1 (by decide)

end Scram

end CppEvent
