import E6irc.Proto.Base64

/-!
# SASL credentials

`parse_oauthbearer_payload` of `e6irc-proto/src/sasl.rs`: the OAUTHBEARER response of
RFC 7628, a GS2 header and pairs of keys and values that each end with a `0x01`.

`Grammar` is what its documentation states.  The parser takes more: it does not count
the `0x01` behind the last pair, and in a name it looks for a bare comma only behind
the last escape.  `Slips` says which texts these are, and on every other one the
parser and the grammar agree.
-/

namespace E6irc.Sasl

open Base List Option

structure OauthBearerCredentials where
  authzid : Option Bytes
  token : Bytes
deriving DecidableEq, Repr

/-- The loop of `unescape_saslname`; every round takes an escape. -/
def unescapeFrom : ℕ → Bytes → Bytes → Option Bytes
  | 0, _, _ => none
  | fuel + 1, name, rest =>
    match splitOnce (byte '=') rest with
    | none => if byte ',' ∈ rest then none else some (name ++ rest)
    | some (front, after) =>
      match stripFront (ascii "2C") after, stripFront (ascii "3D") after with
      | some rest, _ => unescapeFrom fuel (name ++ front ++ [byte ',']) rest
      | none, some rest => unescapeFrom fuel (name ++ front ++ [byte '=']) rest
      | none, none => none

def unescapeSaslname (escaped : Bytes) : Option Bytes :=
  (unescapeFrom (escaped.length + 1) [] escaped).filter (· ≠ [])

/-- The loop over the fields: the token, and what follows the field that ends it. -/
def takePairs : List Bytes → Option Bytes → Option (Option Bytes × Option (List Bytes))
  | [], token => some (token, none)
  | field :: fields, token =>
    if field = [] then some (token, some fields)
    else do
      let (key, value) ← splitOnce (byte '=') field
      if key = ascii "auth" then
        let bearer ← (stripFront (ascii "Bearer ") value).filter (· ≠ [])
        if token.isSome then none else takePairs fields (some bearer)
      else takePairs fields token

def parseAuthzid (named : Bytes) : Option (Option Bytes) :=
  if named = [] then some none
  else ((stripFront (ascii "a=") named).bind unescapeSaslname).map some

/-- The text of a payload. -/
def parseOauthbearer (raw : Bytes) : Option OauthBearerCredentials := do
  guard (isUtf8 raw = true)
  let (gs2Header, pairs) ← splitOnce 1 raw
  let (cbindFlag, rest) ← splitOnce (byte ',') gs2Header
  guard (cbindFlag = ascii "n" ∨ cbindFlag = ascii "y")
  let named ← stripLast (byte ',') rest
  let authzid ← parseAuthzid named
  let (token, trailing) ← takePairs (pairs.splitOn 1) none
  let trailing ← trailing
  guard (trailing.all (· = []) = true)
  let token ← token
  some { authzid, token }

def parseOauthbearerPayload (payload : Bytes) : Option OauthBearerCredentials := do
  let raw ← Base64.decode payload
  parseOauthbearer raw

/-! ## The documented grammar -/

structure Pair where
  key : Bytes
  value : Bytes
deriving DecidableEq, Repr

namespace Pair

def field (pair : Pair) : Bytes :=
  pair.key ++ byte '=' :: pair.value

/-- The key ends at the first `=` and the value at the next `0x01`. -/
structure Valid (pair : Pair) : Prop where
  key : byte '=' ∉ pair.key
  separator : (1 : UInt8) ∉ pair.field

end Pair

/-- The pairs carry one token. -/
structure Bears (pairs : List Pair) (token : Bytes) : Prop where
  valid : ∀ pair ∈ pairs, pair.Valid
  nonempty : token ≠ []
  auth : pairs.filter (·.key = ascii "auth") = [⟨ascii "auth", ascii "Bearer " ++ token⟩]

/-- The pairs and the `0x01`s behind them. -/
def spellPairs (pairs : List Pair) (ends : ℕ) : Bytes :=
  pairs.flatMap (fun pair => pair.field ++ [1]) ++ List.replicate ends 1

/-- A header with `named` between its commas, pairs with a token, and `ends` times
`0x01` behind them. -/
def Layout (raw named token : Bytes) (ends : ℕ) : Prop :=
  isUtf8 raw = true ∧ (1 : UInt8) ∉ named ∧ ∃ flag pairs,
    (flag = byte 'n' ∨ flag = byte 'y') ∧ Bears pairs token ∧
    raw = (flag :: byte ',' :: (named ++ [byte ','])) ++ 1 :: spellPairs pairs ends

/-- A byte of a name as it travels. -/
def escapeByte (b : UInt8) : Bytes :=
  if b = byte ',' then ascii "=2C" else if b = byte '=' then ascii "=3D" else [b]

/-- What stands between the commas of the header. -/
def spellAuthzid : Option Bytes → Bytes
  | none => []
  | some name => ascii "a=" ++ name.flatMap escapeByte

/-- The response that the documentation describes: one `0x01` ends it. -/
def Grammar (raw : Bytes) (credentials : OauthBearerCredentials) : Prop :=
  credentials.authzid ≠ some [] ∧ Layout raw (spellAuthzid credentials.authzid) credentials.token 1

/-! ## Names -/

/-- `escaped` stands for `name`, with a bare comma anywhere before the last escape. -/
inductive Unescapes : Bytes → Bytes → Prop
  | last {text : Bytes} : byte '=' ∉ text → byte ',' ∉ text → Unescapes text text
  | escape {piece rest name : Bytes} {b : UInt8} : byte '=' ∉ piece →
    b = byte ',' ∨ b = byte '=' → Unescapes rest name →
    Unescapes (piece ++ (escapeByte b ++ rest)) (piece ++ b :: name)

theorem escapeByte_comma : escapeByte (byte ',') = byte '=' :: ascii "2C" := by decide

theorem escapeByte_equals : escapeByte (byte '=') = byte '=' :: ascii "3D" := by decide

variable {name token text named escaped raw : Bytes} {token' authzid : Option Bytes} {ends : ℕ}

theorem unescapes_of_splitOnce {front after : Bytes} (first : byte '=' ∉ front) :
    Unescapes (front ++ byte '=' :: after) name ↔ ∃ rest tail, Unescapes rest tail ∧
        (after = ascii "2C" ++ rest ∧ name = front ++ byte ',' :: tail ∨
          after = ascii "3D" ++ rest ∧ name = front ++ byte '=' :: tail) := by
  constructor
  · intro unescapes
    generalize whole : front ++ byte '=' :: after = text at unescapes
    cases unescapes with
    | last absent _ =>
      rw [← whole] at absent
      simp at absent
    | @escape piece rest tail b free isEscape inner =>
      have split := splitOnce_append first after
      rcases isEscape with rfl | rfl
      · rw [whole, escapeByte_comma, cons_append, splitOnce_append free] at split
        cases split
        exact ⟨rest, tail, inner, .inl ⟨rfl, rfl⟩⟩
      · rw [whole, escapeByte_equals, cons_append, splitOnce_append free] at split
        cases split
        exact ⟨rest, tail, inner, .inr ⟨rfl, rfl⟩⟩
  · rintro ⟨rest, tail, inner, ⟨rfl, rfl⟩ | ⟨rfl, rfl⟩⟩
    · have escaped := Unescapes.escape first (.inl rfl) inner
      rwa [escapeByte_comma] at escaped
    · have escaped := Unescapes.escape first (.inr rfl) inner
      rwa [escapeByte_equals] at escaped

theorem unescapes_of_notMem (absent : byte '=' ∉ text) :
    Unescapes text name ↔ byte ',' ∉ text ∧ name = text := by
  constructor
  · intro unescapes
    cases unescapes with
    | last _ comma => exact ⟨comma, rfl⟩
    | escape _ isEscape _ => rcases isEscape with rfl | rfl <;> simp [escapeByte_comma, escapeByte_equals] at absent
  · rintro ⟨comma, rfl⟩
    exact .last absent comma

theorem unescapeFrom_eq_some {fuel : ℕ} {rest out : Bytes} (enough : rest.length < fuel) :
    unescapeFrom fuel name rest = some out ↔ ∃ tail, Unescapes rest tail ∧ out = name ++ tail := by
  induction fuel generalizing name rest with
  | zero => omega
  | succ fuel ih =>
    rw [unescapeFrom]
    rcases splitOnce_cases (byte '=') rest with ⟨absent, split⟩ | ⟨front, after, rfl, first, split⟩
    · simp only [split, unescapes_of_notMem absent, ite_none_left_eq_some, some.injEq]
      constructor
      · rintro ⟨comma, rfl⟩
        exact ⟨rest, ⟨comma, rfl⟩, rfl⟩
      · rintro ⟨_, ⟨comma, rfl⟩, rfl⟩
        exact ⟨comma, rfl⟩
    · have shorter : ∀ {mark : Bytes} {rest : Bytes}, after = mark ++ rest → rest.length < fuel := by
        rintro mark rest rfl
        simp only [length_append, length_cons] at enough
        omega
      simp only [split, unescapes_of_splitOnce first]
      cases comma : stripFront (ascii "2C") after with
      | some rest =>
        obtain rfl := stripFront_eq_some.mp comma
        rw [ih (shorter rfl)]
        constructor
        · rintro ⟨tail, inner, rfl⟩
          exact ⟨_, ⟨rest, tail, inner, .inl ⟨rfl, rfl⟩⟩, by simp⟩
        rintro ⟨_, ⟨rest', tail, inner, ⟨same, rfl⟩ | ⟨other, rfl⟩⟩, rfl⟩
        · obtain rfl := append_cancel_left same
          exact ⟨tail, inner, by simp⟩
        · exact absurd (append_inj_left other rfl) (by decide)
      | none =>
        have noComma : ∀ rest, after ≠ ascii "2C" ++ rest := fun rest whole => by
          rw [stripFront_eq_some.mpr whole] at comma
          cases comma
        cases equals : stripFront (ascii "3D") after with
        | some rest =>
          obtain rfl := stripFront_eq_some.mp equals
          dsimp only
          rw [ih (shorter rfl)]
          constructor
          · rintro ⟨tail, inner, rfl⟩
            exact ⟨_, ⟨rest, tail, inner, .inr ⟨rfl, rfl⟩⟩, by simp⟩
          rintro ⟨_, ⟨rest', tail, inner, ⟨other, rfl⟩ | ⟨same, rfl⟩⟩, rfl⟩
          · exact absurd other (noComma rest')
          · obtain rfl := append_cancel_left same
            exact ⟨tail, inner, by simp⟩
        | none =>
          refine iff_of_false nofun ?_
          rintro ⟨_, ⟨rest, tail, inner, ⟨whole, -⟩ | ⟨whole, -⟩⟩, -⟩
          · exact noComma rest whole
          · rw [stripFront_eq_some.mpr whole] at equals
            cases equals

theorem unescapeSaslname_eq_some :
    unescapeSaslname escaped = some name ↔ Unescapes escaped name ∧ name ≠ [] := by
  simp [unescapeSaslname, filter_eq_some_iff, unescapeFrom_eq_some (Nat.lt_succ_self _)]

/-- Without a bare comma the name is escaped as documented. -/
theorem escape_of_unescapes (unescapes : Unescapes escaped name)
    (comma : byte ',' ∉ escaped) : escaped = name.flatMap escapeByte := by
  have plain : ∀ text : Bytes, byte '=' ∉ text → byte ',' ∉ text → text.flatMap escapeByte = text := by
    intro text equals comma
    induction text with
    | nil => rfl
    | cons b text ih =>
      simp only [mem_cons, not_or] at equals comma
      rw [flatMap_cons, ih equals.2 comma.2, escapeByte, if_neg (Ne.symm comma.1),
        if_neg (Ne.symm equals.1)]
      rfl
  induction unescapes with
  | last equals absent => exact (plain _ equals absent).symm
  | @escape piece rest name b free isEscape _ ih =>
    simp only [mem_append, not_or] at comma
    rw [flatMap_append, flatMap_cons, plain piece free comma.1, ← ih comma.2.2]

theorem unescapes_escape (name : Bytes) : Unescapes (name.flatMap escapeByte) name := by
  induction name with
  | nil => exact .last nofun nofun
  | cons b name ih =>
    rw [flatMap_cons]
    by_cases isEscape : b = byte ',' ∨ b = byte '='
    · have nothing : byte '=' ∉ ([] : Bytes) := not_mem_nil
      exact .escape nothing isEscape ih
    obtain ⟨comma, equals⟩ := not_or.mp isEscape
    rw [escapeByte, if_neg comma, if_neg equals]
    generalize name.flatMap escapeByte = escaped at ih
    cases ih with
    | last free absent =>
      exact .last (by simp [free, Ne.symm equals]) (by simp [absent, Ne.symm comma])
    | @escape piece rest tail c free isEscape inner =>
      have longer : byte '=' ∉ b :: piece := by simp [free, Ne.symm equals]
      exact .escape longer isEscape inner

theorem comma_notMem_escape (name : Bytes) : byte ',' ∉ name.flatMap escapeByte := by
  have each : ∀ b, byte ',' ∉ escapeByte b := by decide +kernel
  intro among
  obtain ⟨b, -, inside⟩ := mem_flatMap.mp among
  exact each b inside

/-! ## Pairs -/

/-- The token after the pairs, given the one before. -/
inductive Tokens : Option Bytes → List Pair → Option Bytes → Prop
  | nil {token : Option Bytes} : Tokens token [] token
  | other {token token' : Option Bytes} {pair : Pair} {pairs : List Pair} :
    pair.key ≠ ascii "auth" → Tokens token pairs token' → Tokens token (pair :: pairs) token'
  | auth {token : Bytes} {token' : Option Bytes} {pairs : List Pair} :
    token ≠ [] → Tokens (some token) pairs token' →
    Tokens none (⟨ascii "auth", ascii "Bearer " ++ token⟩ :: pairs) token'

variable {pairs : List Pair}

theorem tokens_some : Tokens (some token) pairs token' ↔
      pairs.filter (·.key = ascii "auth") = [] ∧ token' = some token := by
  induction pairs with
  | nil =>
    constructor
    · rintro ⟨⟩
      exact ⟨rfl, rfl⟩
    · rintro ⟨-, rfl⟩
      exact .nil
  | cons pair pairs ih =>
    constructor
    · rintro ⟨⟩
      rename_i differs later
      rw [filter_cons_of_neg (by simpa using differs)]
      exact ih.mp later
    · rintro ⟨none, rfl⟩
      obtain ⟨differs, rest⟩ := filter_eq_nil_iff.mp none |> forall_mem_cons.mp
      exact .other (by simpa using differs) (ih.mpr ⟨filter_eq_nil_iff.mpr rest, rfl⟩)

theorem tokens_none : Tokens none pairs (some token) ↔ token ≠ [] ∧
      pairs.filter (·.key = ascii "auth") = [⟨ascii "auth", ascii "Bearer " ++ token⟩] := by
  induction pairs with
  | nil =>
    refine iff_of_false ?_ ?_
    · rintro ⟨⟩
    · rintro ⟨-, ⟨⟩⟩
  | cons pair pairs ih =>
    by_cases auth : pair.key = ascii "auth"
    · rw [filter_cons_of_pos (by simpa using auth)]
      constructor
      · intro tokens
        cases tokens with
        | other differs _ => exact absurd auth differs
        | auth nonempty later =>
          obtain ⟨rest, same⟩ := tokens_some.mp later
          cases same
          exact ⟨nonempty, by rw [rest]⟩
      · rintro ⟨nonempty, one⟩
        obtain ⟨rfl, rest⟩ := cons_eq_cons.mp one
        exact .auth nonempty (tokens_some.mpr ⟨rest, rfl⟩)
    · rw [filter_cons_of_neg (by simpa using auth), ← ih]
      constructor
      · intro tokens
        cases tokens with
        | other _ later => exact later
        | auth _ _ => exact absurd rfl auth
      · exact .other auth

theorem field_ne_nil (pair : Pair) : pair.field ≠ [] := by
  simp [Pair.field]

theorem takePairs_eq_some {fields rest : List Bytes} {token : Option Bytes} :
    takePairs fields token = some (token', some rest) ↔
      ∃ pairs : List Pair, fields = pairs.map Pair.field ++ [] :: rest ∧
        (∀ pair ∈ pairs, byte '=' ∉ pair.key) ∧ Tokens token pairs token' := by
  induction fields generalizing token with
  | nil => simp [takePairs]
  | cons field fields ih =>
    rw [takePairs]
    split
    · rename_i empty
      constructor
      · rintro ⟨⟩
        exact ⟨[], by rw [empty]; rfl, nofun, .nil⟩
      rintro ⟨pairs, whole, -, tokens⟩
      cases pairs with
      | nil =>
        obtain ⟨-, rfl⟩ := cons_eq_cons.mp whole
        cases tokens
        rfl
      | cons pair pairs =>
        obtain ⟨same, -⟩ := cons_eq_cons.mp whole
        exact absurd (same.symm.trans empty) (field_ne_nil pair)
    · rename_i some_field
      constructor
      · intro taken
        obtain ⟨⟨key, value⟩, split, step⟩ := bind_eq_some_iff.mp taken
        obtain ⟨rfl, first⟩ := splitOnce_eq_some_iff.mp split
        dsimp only at step
        by_cases auth : key = ascii "auth"
        · rw [if_pos auth] at step
          obtain ⟨bearer, filtered, step⟩ := bind_eq_some_iff.mp step
          obtain ⟨stripped, nonempty⟩ := filter_eq_some_iff.mp filtered
          cases token with
          | some token => cases step
          | none =>
            obtain ⟨pairs, rfl, free, tokens⟩ := ih.mp step
            refine ⟨⟨key, value⟩ :: pairs, rfl, forall_mem_cons.mpr ⟨first, free⟩, ?_⟩
            rw [auth, stripFront_eq_some.mp stripped]
            exact .auth (by simpa using nonempty) tokens
        · rw [if_neg auth] at step
          obtain ⟨pairs, rfl, free, tokens⟩ := ih.mp step
          exact ⟨⟨key, value⟩ :: pairs, rfl, forall_mem_cons.mpr ⟨first, free⟩, .other auth tokens⟩
      · rintro ⟨pairs, whole, free, tokens⟩
        cases pairs with
        | nil => exact absurd (cons_eq_cons.mp whole).1 some_field
        | cons pair pairs =>
          obtain ⟨rfl, rest⟩ := cons_eq_cons.mp whole
          obtain ⟨first, others⟩ := forall_mem_cons.mp free
          rw [Pair.field, splitOnce_append first]
          cases tokens with
          | other differs later =>
            simpa [differs] using ih.mpr ⟨pairs, rest, others, later⟩
          | @auth token _ _ nonempty later =>
            have kept : (stripFront (ascii "Bearer ") (ascii "Bearer " ++ token)).filter (· ≠ []) =
                some token :=
              filter_eq_some_iff.mpr ⟨stripFront_eq_some.mpr rfl, by simpa using nonempty⟩
            simp only [bind_eq_bind, bind_some, if_true, kept]
            exact ih.mpr ⟨pairs, rest, others, later⟩

/-! ## What the parser takes -/

/-- The fields between the `0x01`s. -/
theorem splitOn_spellPairs (valid : ∀ pair ∈ pairs, pair.Valid) (ends : ℕ) :
    (spellPairs pairs ends).splitOn 1 = pairs.map Pair.field ++ List.replicate (ends + 1) [] := by
  unfold spellPairs
  induction pairs with
  | nil =>
    induction ends with
    | zero => rfl
    | succ ends ih =>
      simp only [flatMap_nil, nil_append, map_nil] at ih ⊢
      rw [replicate_succ, splitOn_cons_eq_if_modifyHead, ih]
      rfl
  | cons pair pairs ih =>
    obtain ⟨first, valid⟩ := forall_mem_cons.mp valid
    rw [flatMap_cons, append_assoc, append_assoc, singleton_append,
      splitOn_append_cons_self_of_not_mem first.separator, ih valid]
    rfl

/-- A text with these fields is so spelt. -/
theorem eq_spellPairs (valid : ∀ pair ∈ pairs, pair.Valid)
    (fields : text.splitOn 1 = pairs.map Pair.field ++ [] :: List.replicate ends []) :
    text = spellPairs pairs ends := by
  have same : text.splitOn 1 = (spellPairs pairs ends).splitOn 1 := by
    rw [fields, splitOn_spellPairs valid]
    rfl
  have joined : [1].intercalate (text.splitOn 1) = text := intercalate_splitOn 1
  rw [← joined, same, intercalate_splitOn]

theorem takePairs_token :
    (∃ trailing, takePairs (text.splitOn 1) none = some (some token, some trailing) ∧
        trailing.all (· = []) = true) ↔
      ∃ pairs ends, Bears pairs token ∧ text = spellPairs pairs ends := by
  constructor
  · rintro ⟨trailing, taken, empty⟩
    obtain ⟨pairs, fields, free, tokens⟩ := takePairs_eq_some.mp taken
    have trailing_eq : trailing = List.replicate trailing.length [] :=
      eq_replicate_iff.mpr ⟨rfl, fun part among => by
        simpa using all_eq_true.mp empty part among⟩
    have valid : ∀ pair ∈ pairs, pair.Valid := fun pair among => by
      have isField : pair.field ∈ text.splitOn 1 := by
        rw [fields]
        exact mem_append_left _ (mem_map_of_mem among)
      exact ⟨free pair among, notMem_of_mem_splitOn isField⟩
    obtain ⟨nonempty, auth⟩ := tokens_none.mp tokens
    exact ⟨pairs, trailing.length, ⟨valid, nonempty, auth⟩, eq_spellPairs valid (trailing_eq ▸ fields)⟩
  · rintro ⟨pairs, ends, bears, rfl⟩
    refine ⟨List.replicate ends [], takePairs_eq_some.mpr ⟨pairs, splitOn_spellPairs bears.valid ends,
      fun pair among => (bears.valid pair among).key, tokens_none.mpr ⟨bears.nonempty, bears.auth⟩⟩, ?_⟩
    simp

theorem parseAuthzid_eq_some : parseAuthzid named = some authzid ↔ named = [] ∧ authzid = none ∨
      ∃ escaped name, named = ascii "a=" ++ escaped ∧ Unescapes escaped name ∧ name ≠ [] ∧
        authzid = some name := by
  unfold parseAuthzid
  split
  · rename_i empty
    subst empty
    constructor
    · rintro ⟨⟩
      exact .inl ⟨rfl, rfl⟩
    · rintro (⟨-, rfl⟩ | ⟨escaped, name, whole, -⟩)
      · rfl
      · exact absurd whole (by simp [ascii])
  · rename_i some_name
    simp only [map_eq_some_iff, bind_eq_some_iff, stripFront_eq_some,
      unescapeSaslname_eq_some, some_name, false_and, false_or]
    constructor
    · rintro ⟨name, ⟨escaped, whole, unescapes, nonempty⟩, rfl⟩
      exact ⟨escaped, name, whole, unescapes, nonempty, rfl⟩
    · rintro ⟨escaped, name, whole, unescapes, nonempty, rfl⟩
      exact ⟨name, ⟨escaped, whole, unescapes, nonempty⟩, rfl⟩

/-- The texts the parser takes, and what it makes of them. -/
theorem parseOauthbearer_eq_some {credentials : OauthBearerCredentials} :
    parseOauthbearer raw = some credentials ↔
      ∃ named ends, Layout raw named credentials.token ends ∧
        parseAuthzid named = some credentials.authzid := by
  unfold parseOauthbearer
  simp only [bind_eq_bind, bind_eq_some_iff, Prod.exists, guard_eq_some',
    splitOnce_eq_some_iff, stripLast_eq_some]
  constructor
  · rintro ⟨_, utf8, header, text, ⟨rfl, noSep⟩, flag, rest, ⟨rfl, noComma⟩, _, isFlag, named, rfl,
      authzid, isAuthzid, _, _, taken, trailing, rfl, _, empty, token, rfl, ⟨⟩⟩
    obtain ⟨pairs, ends, bears, rfl⟩ := takePairs_token.mp ⟨trailing, taken, empty⟩
    simp only [mem_append, mem_cons, not_or] at noSep
    refine ⟨named, ends, ⟨utf8, noSep.2.2.1, ?_⟩, isAuthzid⟩
    rcases isFlag with rfl | rfl
    · exact ⟨byte 'n', pairs, .inl rfl, bears, rfl⟩
    · exact ⟨byte 'y', pairs, .inr rfl, bears, rfl⟩
  · rintro ⟨named, ends, ⟨utf8, noSep, flag, pairs, isFlag, bears, rfl⟩, isAuthzid⟩
    obtain ⟨trailing, taken, empty⟩ := takePairs_token.mpr ⟨pairs, ends, bears, rfl⟩
    have flagAscii : [flag] = ascii "n" ∨ [flag] = ascii "y" := by
      rcases isFlag with rfl | rfl
      · exact .inl rfl
      · exact .inr rfl
    have flagApart : (1 : UInt8) ≠ flag ∧ byte ',' ≠ flag := by
      rcases isFlag with rfl | rfl <;> decide
    refine ⟨(), utf8, _, _, ⟨rfl, ?_⟩, [flag], named ++ [byte ','], ⟨rfl, ?_⟩, (), flagAscii, named, rfl,
      _, isAuthzid, _, _, taken, trailing, rfl, (), empty, _, rfl, rfl⟩
    · have commaApart : (1 : UInt8) ≠ byte ',' := by decide
      simp [noSep, flagApart.1, commaApart]
    · simpa using flagApart.2

/-! ## Parser and grammar -/

theorem count_fields (pairs : List Pair) (ends : ℕ) :
    (pairs.map Pair.field ++ List.replicate ends []).count [] = ends := by
  have none : (pairs.map Pair.field).count [] = 0 := by
    rw [List.count_eq_zero, List.mem_map]
    rintro ⟨pair, -, empty⟩
    exact field_ne_nil pair empty
  rw [List.count_append, none, List.count_replicate_self, Nat.zero_add]

/-- A text is laid out in one way. -/
theorem Layout.unique {named' token' : Bytes} {ends' : ℕ}
    (one : Layout raw named token ends) (other : Layout raw named' token' ends') :
    named = named' ∧ ends = ends' := by
  obtain ⟨-, noSep, flag, pairs, isFlag, bears, whole⟩ := one
  obtain ⟨-, noSep', flag', pairs', isFlag', bears', whole'⟩ := other
  have header : ∀ {flag : UInt8} {named : Bytes}, flag = byte 'n' ∨ flag = byte 'y' →
      (1 : UInt8) ∉ named → (1 : UInt8) ∉ flag :: byte ',' :: (named ++ [byte ',']) := by
    rintro flag named (rfl | rfl) noSep
    all_goals
      have apart : (1 : UInt8) ≠ byte ',' ∧ (1 : UInt8) ≠ byte 'n' ∧ (1 : UInt8) ≠ byte 'y' := by decide
      simp [noSep, apart]
  have split := splitOnce_append (header isFlag noSep) (spellPairs pairs ends)
  rw [← whole, whole', splitOnce_append (header isFlag' noSep')] at split
  obtain ⟨headers, texts⟩ := Prod.ext_iff.mp (some.inj split)
  constructor
  · have names := (cons_eq_cons.mp (cons_eq_cons.mp headers).2).2
    exact (append_cancel_right names).symm
  have fields := congrArg (fun text => (List.splitOn (1 : UInt8) text).count []) texts
  dsimp only at fields
  rw [splitOn_spellPairs bears.valid, splitOn_spellPairs bears'.valid, count_fields,
    count_fields] at fields
  omega

/-- The text is laid out as a response, but for the number of `0x01` behind its pairs
or a bare comma in its name. -/
def Slips (raw : Bytes) : Prop :=
  ∃ named token ends, Layout raw named token ends ∧
    (named = [] ∨ ∃ escaped name, named = ascii "a=" ++ escaped ∧ Unescapes escaped name ∧ name ≠ []) ∧
    (ends ≠ 1 ∨ byte ',' ∈ named)

theorem comma_notMem_spellAuthzid (authzid : Option Bytes) : byte ',' ∉ spellAuthzid authzid := by
  cases authzid with
  | none => exact not_mem_nil
  | some name =>
    have front : byte ',' ∉ ascii "a=" := by decide
    exact fun among => (mem_append.mp among).elim front (comma_notMem_escape name)

/-- What stands for an identity without a bare comma is its documented spelling. -/
theorem parseAuthzid_of_notMem (comma : byte ',' ∉ named) :
    parseAuthzid named = some authzid ↔ authzid ≠ some [] ∧ named = spellAuthzid authzid := by
  rw [parseAuthzid_eq_some]
  constructor
  · rintro (⟨rfl, rfl⟩ | ⟨escaped, name, rfl, unescapes, nonempty, rfl⟩)
    · exact ⟨nofun, rfl⟩
    · refine ⟨fun same => nonempty (some.inj same), ?_⟩
      rw [spellAuthzid, ← escape_of_unescapes unescapes fun among => comma (mem_append_right _ among)]
  · rintro ⟨nonempty, rfl⟩
    cases authzid with
    | none => exact .inl ⟨rfl, rfl⟩
    | some name =>
      exact .inr ⟨_, name, rfl, unescapes_escape name, fun empty => nonempty (congrArg some empty), rfl⟩

/-- The parser takes a text as the documented response with the credentials it
carries, and no other text, exactly if the text does not slip. -/
theorem oauthbearer_grammar_iff (raw : Bytes) :
    (∀ credentials, parseOauthbearerPayload (Base64.encode raw) = some credentials ↔
      Grammar raw credentials) ↔ ¬ Slips raw := by
  have payload : parseOauthbearerPayload (Base64.encode raw) = parseOauthbearer raw := by
    rw [parseOauthbearerPayload, Base64.decode_encode]
    rfl
  simp only [payload, parseOauthbearer_eq_some]
  constructor
  · rintro agree ⟨named, token, ends, layout, isName, slip⟩
    obtain ⟨authzid, parsed⟩ : ∃ authzid, parseAuthzid named = some authzid := by
      rcases isName with rfl | ⟨escaped, name, rfl, unescapes, nonempty⟩
      · exact ⟨none, rfl⟩
      · exact ⟨some name, parseAuthzid_eq_some.mpr (.inr ⟨escaped, name, rfl, unescapes, nonempty, rfl⟩)⟩
    obtain ⟨-, documented⟩ := (agree ⟨authzid, token⟩).mp ⟨named, ends, layout, parsed⟩
    obtain ⟨rfl, rfl⟩ := layout.unique documented
    rcases slip with wrong | comma
    · exact wrong rfl
    · exact comma_notMem_spellAuthzid authzid comma
  · intro exact_text credentials
    constructor
    · rintro ⟨named, ends, layout, parsed⟩
      have isName : named = [] ∨ ∃ escaped name, named = ascii "a=" ++ escaped ∧
          Unescapes escaped name ∧ name ≠ [] := by
        rcases parseAuthzid_eq_some.mp parsed with ⟨rfl, -⟩ | ⟨escaped, name, rfl, unescapes, nonempty, -⟩
        · exact .inl rfl
        · exact .inr ⟨escaped, name, rfl, unescapes, nonempty⟩
      have slip : ¬ (ends ≠ 1 ∨ byte ',' ∈ named) := fun slip =>
        exact_text ⟨named, _, ends, layout, isName, slip⟩
      obtain ⟨ends_eq, comma⟩ := not_or.mp slip
      obtain ⟨nonempty, rfl⟩ := (parseAuthzid_of_notMem comma).mp parsed
      exact ⟨nonempty, not_not.mp ends_eq ▸ layout⟩
    · rintro ⟨nonempty, layout⟩
      exact ⟨_, 1, layout, (parseAuthzid_of_notMem (comma_notMem_spellAuthzid _)).mpr ⟨nonempty, rfl⟩⟩

theorem bears_tok : Bears [⟨ascii "auth", ascii "Bearer tok"⟩] (ascii "tok") where
  valid := by
    intro pair among
    obtain rfl := mem_singleton.mp among
    exact ⟨by decide, by decide +kernel⟩
  nonempty := by decide
  auth := by decide +kernel

/-- Without its last `0x01`, or with a bare comma before an escape, a response that the
grammar refuses is taken. -/
theorem oauthbearer_takes_more :
    (∀ credentials, ¬ Grammar (ascii "n,," ++ 1 :: ascii "auth=Bearer tok" ++ [1]) credentials) ∧
      parseOauthbearerPayload (Base64.encode (ascii "n,," ++ 1 :: ascii "auth=Bearer tok" ++ [1])) =
        some ⟨none, ascii "tok"⟩ ∧
      (∀ credentials,
        ¬ Grammar (ascii "n,a=b,c=2Cd," ++ 1 :: ascii "auth=Bearer tok" ++ [1, 1]) credentials) ∧
      parseOauthbearerPayload
          (Base64.encode (ascii "n,a=b,c=2Cd," ++ 1 :: ascii "auth=Bearer tok" ++ [1, 1])) =
        some ⟨some (ascii "b,c,d"), ascii "tok"⟩ := by
  refine ⟨?_, by decide +kernel, ?_, by decide +kernel⟩
  · have short : Layout (ascii "n,," ++ 1 :: ascii "auth=Bearer tok" ++ [1]) [] (ascii "tok") 0 :=
      ⟨by decide +kernel, not_mem_nil, byte 'n', _, .inl rfl, bears_tok, by decide +kernel⟩
    rintro credentials ⟨-, layout⟩
    exact absurd (short.unique layout).2 (by decide)
  · have bare : Layout (ascii "n,a=b,c=2Cd," ++ 1 :: ascii "auth=Bearer tok" ++ [1, 1])
        (ascii "a=b,c=2Cd") (ascii "tok") 1 :=
      ⟨by decide +kernel, by decide, byte 'n', _, .inl rfl, bears_tok, by decide +kernel⟩
    rintro credentials ⟨-, layout⟩
    have named := (bare.unique layout).1
    exact comma_notMem_spellAuthzid credentials.authzid (named ▸ by decide)

end E6irc.Sasl
