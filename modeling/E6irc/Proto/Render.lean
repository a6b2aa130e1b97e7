import E6irc.Base.Result
import E6irc.Proto.Message

/-!
# Lines from messages

The line a message is written as, from its tags, source, command and
parameters.  `Message.WellFormed` is what those parts must be for the line to
read as they are: every message `parse` returns is such, and the line of one
that is parses back to it.
-/

namespace E6irc

open Base List

variable {text word value token : Bytes} {hasTrailing : Bool} {b : UInt8} {params : List Bytes}

theorem disjoint_of_all {bad : Bytes} (clean : (text.all fun b => b ∉ bad) = true) :
    text.Disjoint bad :=
  fun b among isBad => of_decide_eq_true (all_eq_true.mp clean b among) isBad

/-! ## Escaping -/

/-- No line may hold CR, LF or NUL. -/
def illegal : Bytes :=
  [13, 10, 0]

theorem containsIllegalByte_eq_false :
    containsIllegalByte text = false ↔ text.Disjoint illegal := by
  simp [containsIllegalByte, illegal, List.Disjoint, and_assoc]

/-- What ends a tag or its section, beside what no line may hold. -/
def tagEnds : Bytes :=
  byte ';' :: byte ' ' :: illegal

theorem unescapeTagValue_cons (plain : b ≠ byte '\\') (rest : Bytes) :
    unescapeTagValue (b :: rest) = b :: unescapeTagValue rest := by
  cases rest with
  | nil | cons next rest => simp [unescapeTagValue, plain]

theorem escapeTagValue_cons (b : UInt8) (rest : Bytes) :
    escapeTagValue (b :: rest) = escapeTagValue [b] ++ escapeTagValue rest := by
  simp [escapeTagValue]

/-- One byte is escaped as a pair that stands for it, or stands for itself. -/
theorem unescapeTagValue_escaped (some_byte : b ≠ 0) (rest : Bytes) :
    unescapeTagValue (escapeTagValue [b] ++ rest) = b :: unescapeTagValue rest := by
  simp only [escapeTagValue, flatMap_cons, flatMap_nil, append_nil, if_neg some_byte]
  split_ifs with semicolon space backslash cr lf
  · rw [semicolon]
    rfl
  · rw [space]
    rfl
  · rw [backslash]
    rfl
  · rw [cr]
    rfl
  · rw [lf]
    rfl
  · exact unescapeTagValue_cons backslash rest

theorem unescape_escape (noNul : 0 ∉ value) : unescapeTagValue (escapeTagValue value) = value := by
  induction value with
  | nil => rfl
  | cons b rest ih =>
    simp only [mem_cons, not_or] at noNul
    rw [escapeTagValue_cons, unescapeTagValue_escaped (Ne.symm noNul.1), ih noNul.2]

theorem escape_disjoint (value : Bytes) : (escapeTagValue value).Disjoint tagEnds := by
  induction value with
  | nil => simp [escapeTagValue]
  | cons b rest ih =>
    rw [escapeTagValue_cons, disjoint_append_left]
    refine ⟨?_, ih⟩
    simp only [escapeTagValue, flatMap_cons, flatMap_nil, append_nil]
    split_ifs with semicolon space backslash cr lf nul
    · exact disjoint_of_all (by decide)
    · exact disjoint_of_all (by decide)
    · exact disjoint_of_all (by decide)
    · exact disjoint_of_all (by decide)
    · exact disjoint_of_all (by decide)
    · exact disjoint_nil_left _
    · simp [tagEnds, illegal, semicolon, space, cr, lf, nul]

/-- Unescaping makes no NUL. -/
theorem unescape_noNul (noNul : 0 ∉ value) : 0 ∉ unescapeTagValue value := by
  fun_induction unescapeTagValue value with
  | case1 => exact noNul
  | case2 => exact not_mem_nil
  | case3 => exact noNul
  | case4 escaped rest ih =>
    simp only [mem_cons, not_or] at noNul ⊢
    refine ⟨?_, ih noNul.2.2⟩
    split_ifs
    · decide
    · decide
    · decide
    · decide
    · exact noNul.2.1
  | case5 b escaped rest _ ih =>
    rw [mem_cons, not_or] at noNul ⊢
    exact ⟨noNul.1, ih noNul.2⟩

/-! ## The line of a message -/

namespace Tag

def render (tag : Tag) : Bytes :=
  tag.key ++ tag.value.elim [] fun value => byte '=' :: escapeTagValue value

structure WellFormed (tag : Tag) : Prop where
  named : tag.key ≠ []
  key : tag.key.Disjoint (byte '=' :: tagEnds)
  value : ∀ value ∈ tag.value, 0 ∉ value

variable {tag : Tag}

theorem WellFormed.render_disjoint (wellFormed : tag.WellFormed) : tag.render.Disjoint tagEnds := by
  have key := (disjoint_cons_right.mp wellFormed.key).2
  rw [render]
  cases tag.value with
  | none => simpa using key
  | some value =>
    refine disjoint_append_left.mpr ⟨key, disjoint_cons_left.mpr ⟨by decide, ?_⟩⟩
    exact escape_disjoint value

theorem WellFormed.parse_render (wellFormed : tag.WellFormed) : parseTag tag.render = .ok tag := by
  have first : byte '=' ∉ tag.key := (disjoint_cons_right.mp wellFormed.key).1
  obtain ⟨key, value⟩ := tag
  cases value with
  | none =>
    have whole : splitOnce (byte '=') key = none := splitOnce_of_notMem first
    simp [parseTag, render, whole, wellFormed.named]
  | some value =>
    have divided : splitOnce (byte '=') (key ++ byte '=' :: escapeTagValue value) =
        some (key, escapeTagValue value) := splitOnce_append first _
    simp [parseTag, render, divided, wellFormed.named, unescape_escape (wellFormed.value value rfl)]

/-- A tag that is read from an item of a tag section. -/
theorem wellFormed_of_parse {item : Bytes} (clean : item.Disjoint tagEnds)
    (parsed : parseTag item = .ok tag) : tag.WellFormed := by
  unfold parseTag at parsed
  rcases splitOnce_cases (byte '=') item with ⟨absent, split⟩ | ⟨key, value, whole, first, split⟩
  · rw [split] at parsed
    dsimp only at parsed
    split at parsed
    · cases parsed
    · rename_i named
      cases parsed
      exact ⟨named, disjoint_cons_right.mpr ⟨absent, clean⟩, nofun⟩
  · rw [split] at parsed
    rw [whole, disjoint_append_left, disjoint_cons_left] at clean
    dsimp only at parsed
    split at parsed
    · cases parsed
    rename_i named
    cases parsed
    refine ⟨named, disjoint_cons_right.mpr ⟨first, clean.1⟩, ?_⟩
    rintro _ ⟨⟩
    exact unescape_noNul fun isNul => clean.2.2 isNul (by decide)

theorem splitOn_render {tags : List Tag} (wellFormed : ∀ tag ∈ tags, tag.WellFormed)
    (some_tag : tags ≠ []) :
    ([byte ';'].intercalate (tags.map render)).splitOn (byte ';') = tags.map render := by
  refine splitOn_intercalate _ (fun item isItem => ?_) (by simpa using some_tag)
  obtain ⟨tag, among, rfl⟩ := mem_map.mp isItem
  exact (disjoint_cons_right.mp (wellFormed tag among).render_disjoint).1

/-- A section of well-formed tags reads as them. -/
theorem parseTagSection_render {tags : List Tag} (wellFormed : ∀ tag ∈ tags, tag.WellFormed)
    (some_tag : tags ≠ []) :
    parseTagSection ([byte ';'].intercalate (tags.map render)) = .ok tags := by
  rw [parseTagSection, splitOn_render wellFormed some_tag]
  exact mapM_map_eq_ok fun tag among => (wellFormed tag among).parse_render

end Tag

namespace Source

def render (source : Source) : Bytes :=
  source.name ++ (source.user.elim [] fun user => byte '!' :: user) ++
    source.host.elim [] fun host => byte '@' :: host

/-- Each part of the source ends where the next one starts, and the source at the space. -/
structure WellFormed (source : Source) : Prop where
  named : source.name ≠ []
  beforeUser : byte '!' ∉ source.name
  beforeHost : byte '@' ∉ source.name ++ (source.user.elim [] fun user => byte '!' :: user)
  clean : source.render.Disjoint (byte ' ' :: illegal)

variable {source : Source}

theorem WellFormed.render_ne_nil (wellFormed : source.WellFormed) : source.render ≠ [] := by
  simp [render, wellFormed.named]

/-- A source is read from its line exactly if its name is there and each part
ends where the next one starts. -/
theorem parse_eq_ok_iff {rawSource : Bytes} :
    parseSource rawSource = .ok source ↔
      source.name ≠ [] ∧ rawSource = source.render ∧ byte '!' ∉ source.name ∧
        byte '@' ∉ source.name ++ (source.user.elim [] fun user => byte '!' :: user) := by
  have parts : parseSource rawSource =
      (let atHost := splitTail (byte '@') rawSource
      let atUser := splitTail (byte '!') atHost.1
      if atUser.1 = [] then .error .badSource else .ok ⟨atUser.1, atUser.2, atHost.2⟩) := rfl
  obtain ⟨name, user, host⟩ := source
  constructor
  · intro parsed
    rw [parts] at parsed
    rcases atHost : splitTail (byte '@') rawSource with ⟨main, rest⟩
    rcases atUser : splitTail (byte '!') main with ⟨first, middle⟩
    simp only [atHost, atUser] at parsed
    split at parsed
    · cases parsed
    rename_i named
    cases parsed
    obtain ⟨rfl, beforeHost⟩ := splitTail_eq_iff.mp atHost
    obtain ⟨rfl, beforeUser⟩ := splitTail_eq_iff.mp atUser
    exact ⟨named, rfl, beforeUser, beforeHost⟩
  · rintro ⟨named, rfl, beforeUser, beforeHost⟩
    have atHost : splitTail (byte '@') (render ⟨name, user, host⟩) = _ :=
      splitTail_eq_iff.mpr ⟨rfl, beforeHost⟩
    have atUser : splitTail (byte '!') (name ++ user.elim [] fun user => byte '!' :: user) = _ :=
      splitTail_eq_iff.mpr ⟨rfl, beforeUser⟩
    rw [parts, atHost]
    dsimp only
    rw [atUser]
    exact if_neg named

theorem WellFormed.parse_render (wellFormed : source.WellFormed) :
    parseSource source.render = .ok source :=
  parse_eq_ok_iff.mpr ⟨wellFormed.named, rfl, wellFormed.beforeUser, wellFormed.beforeHost⟩

theorem wellFormed_of_parse {rawSource : Bytes} (clean : rawSource.Disjoint (byte ' ' :: illegal))
    (parsed : parseSource rawSource = .ok source) : source.WellFormed := by
  obtain ⟨named, rfl, beforeUser, beforeHost⟩ := parse_eq_ok_iff.mp parsed
  exact ⟨named, beforeUser, beforeHost, clean⟩

end Source

/-! ## Parameters -/

theorem standsAlone_iff : standsAlone token = true ↔
      token ≠ [] ∧ token.head? ≠ some (byte ':') ∧ token.Disjoint (byte ' ' :: illegal) := by
  simp [standsAlone, illegal, List.Disjoint, and_assoc]

/-- A cut of a word that stands alone does so too, unless nothing is left. -/
theorem standsAlone_of_cut {front : Bytes} (alone : standsAlone token = true)
    (cut : front <+: token) (some_text : front ≠ []) : standsAlone front = true := by
  obtain ⟨_, noColon, clean⟩ := standsAlone_iff.mp alone
  obtain ⟨rest, rfl⟩ := cut
  rw [List.head?_append_of_ne_nil _ some_text] at noColon
  exact standsAlone_iff.mpr ⟨some_text, noColon, (disjoint_append_left.mp clean).1⟩

theorem trimSpaces_space (text : Bytes) : trimSpaces (byte ' ' :: text) = trimSpaces text :=
  dropWhile_cons_of_pos (by decide)

theorem trimSpaces_eq_self (first : text.head? ≠ some (byte ' ')) : trimSpaces text = text := by
  cases text with
  | nil => rfl
  | cons b rest =>
    refine dropWhile_cons_of_neg ?_
    simpa using first

theorem trimSpaces_subset (text : Bytes) : trimSpaces text ⊆ text := (dropWhile_sublist _).subset

theorem head_trimSpaces (text : Bytes) : (trimSpaces text).head? ≠ some (byte ' ') := by
  intro first
  have kept := List.head?_dropWhile_not (· == byte ' ') text
  rw [show text.dropWhile (· == byte ' ') = trimSpaces text from rfl, first] at kept
  simp at kept

theorem splitWord_eq_self (whole : byte ' ' ∉ word) : splitWord word = (word, []) := by
  rw [splitWord, splitOnce_of_notMem whole]
  rfl

theorem splitWord_append (whole : byte ' ' ∉ word) (after : Bytes) :
    splitWord (word ++ byte ' ' :: after) = (word, after) := by
  rw [splitWord, splitOnce_append whole]
  rfl

/-- A text is its first word, alone or with a space and more behind it. -/
theorem splitWord_cases (text : Bytes) :
    byte ' ' ∉ (splitWord text).1 ∧
      (text = (splitWord text).1 ∧ (splitWord text).2 = [] ∨
        text = (splitWord text).1 ++ byte ' ' :: (splitWord text).2) := by
  rcases splitOnce_cases (byte ' ') text with ⟨whole, _⟩ | ⟨word, after, rfl, whole, _⟩
  · rw [splitWord_eq_self whole]
    exact ⟨whole, .inl ⟨rfl, rfl⟩⟩
  · rw [splitWord_append whole]
    exact ⟨whole, .inr rfl⟩

/-- The parameters, each behind a space, and the last behind a `:` if it is trailing. -/
def renderParams : List Bytes → Bool → Bytes
  | [], _ => []
  | [last], hasTrailing => byte ' ' :: if hasTrailing then byte ':' :: last else last
  | param :: rest, hasTrailing => byte ' ' :: param ++ renderParams rest hasTrailing

/-- Every parameter reads as one: all but a trailing one stand alone. -/
def ParamsWellFormed : List Bytes → Bool → Prop
  | [], hasTrailing => hasTrailing = false
  | [last], true => last.Disjoint illegal
  | [last], false => standsAlone last = true
  | param :: rest, hasTrailing => standsAlone param = true ∧ ParamsWellFormed rest hasTrailing

theorem ParamsWellFormed.cons {param : Bytes} {rest : List Bytes}
    (alone : standsAlone param = true) (wellFormed : ParamsWellFormed rest hasTrailing) :
    ParamsWellFormed (param :: rest) hasTrailing := by
  cases rest with
  | nil =>
    cases show hasTrailing = false from wellFormed
    exact alone
  | cons next rest => exact ⟨alone, wellFormed⟩

/-- Parameters that stand alone, and a trailing one behind them or not. -/
theorem ParamsWellFormed.of_middles {middles : List Bytes}
    (alone : ∀ middle ∈ middles, standsAlone middle = true) {trailing : Option Bytes}
    (clean : ∀ text ∈ trailing, text.Disjoint illegal) :
    ParamsWellFormed (middles ++ trailing.toList) trailing.isSome := by
  induction middles with
  | nil =>
    cases trailing with
    | none => rfl
    | some text => exact clean text rfl
  | cons middle rest ih =>
    exact .cons (alone middle mem_cons_self)
      (ih fun other among => alone other (mem_cons_of_mem _ among))

theorem renderParams_middles (middles : List Bytes) (trailing : Option Bytes) :
    renderParams (middles ++ trailing.toList) trailing.isSome =
      (middles.flatMap fun middle => byte ' ' :: middle) ++
        trailing.elim [] fun text => ascii " :" ++ text := by
  induction middles with
  | nil => cases trailing <;> rfl
  | cons middle rest ih =>
    rw [flatMap_cons, append_assoc, ← ih]
    cases trailing with
    | none => cases rest <;> simp [renderParams]
    | some text => cases rest <;> rfl

/-- What follows a command: nothing, or a space and the parameters. -/
theorem renderParams_cases (params : List Bytes) (hasTrailing : Bool) :
    renderParams params hasTrailing = [] ∨
      ∃ text, renderParams params hasTrailing = byte ' ' :: text := by
  match params with
  | [] => exact .inl rfl
  | [_] => exact .inr ⟨_, rfl⟩
  | _ :: _ :: _ => exact .inr ⟨_, rfl⟩

/-- The parameters hold nothing that a line may not, and take two bytes each at least. -/
theorem renderParams_disjoint (wellFormed : ParamsWellFormed params hasTrailing) :
    (renderParams params hasTrailing).Disjoint illegal ∧
      2 * params.length ≤ (renderParams params hasTrailing).length := by
  have space : byte ' ' ∉ illegal := by decide
  have colon : byte ':' ∉ illegal := by decide
  induction params with
  | nil => exact ⟨disjoint_nil_left _, le_rfl⟩
  | cons param rest ih =>
    have word : standsAlone param = true → param.Disjoint illegal ∧ 1 ≤ param.length := by
      intro alone
      obtain ⟨some_word, _, clean⟩ := standsAlone_iff.mp alone
      exact ⟨(disjoint_cons_right.mp clean).2, length_pos_of_ne_nil some_word⟩
    cases rest with
    | nil =>
      cases hasTrailing with
      | true =>
        refine ⟨?_, by simp [renderParams]⟩
        exact disjoint_cons_left.mpr
          ⟨space, disjoint_cons_left.mpr ⟨colon, wellFormed⟩⟩
      | false =>
        obtain ⟨clean, long⟩ := word wellFormed
        exact ⟨disjoint_cons_left.mpr ⟨space, clean⟩, by simp [renderParams]; omega⟩
    | cons next rest =>
      obtain ⟨clean, long⟩ := word wellFormed.1
      obtain ⟨cleanRest, longRest⟩ := ih wellFormed.2
      rw [show renderParams (param :: next :: rest) hasTrailing =
        byte ' ' :: (param ++ renderParams (next :: rest) hasTrailing) from rfl]
      refine ⟨disjoint_cons_left.mpr
        ⟨space, disjoint_append_left.mpr ⟨clean, cleanRest⟩⟩, ?_⟩
      simp only [length_cons, length_append] at longRest ⊢
      omega

theorem parseParams_space (fuel : ℕ) (text : Bytes) :
    parseParams fuel (byte ' ' :: text) = parseParams fuel text := by
  cases fuel with
  | zero => rfl
  | succ fuel => rw [parseParams, parseParams, trimSpaces_space]

theorem parseParams_nil (fuel : ℕ) : parseParams fuel [] = ([], false) := by
  cases fuel <;> rfl

/-- A parameter that stands alone is read up to the space behind it. -/
theorem parseParams_word (alone : standsAlone word = true) (fuel : ℕ)
    {after : Bytes} (split : splitWord text = (word, after)) (first : text.head? = word.head?) :
    parseParams (fuel + 1) text =
      (word :: (parseParams fuel after).1, (parseParams fuel after).2) := by
  obtain ⟨some_word, noColon, clean⟩ := standsAlone_iff.mp alone
  have trimmed : trimSpaces text = text := by
    refine trimSpaces_eq_self fun isSpace => ?_
    rw [first] at isSpace
    exact clean (mem_of_mem_head? isSpace) (by simp)
  cases text with
  | nil =>
    rw [List.head?_nil, eq_comm, List.head?_eq_none_iff] at first
    exact absurd first some_word
  | cons b rest =>
    have plain : b ≠ byte ':' := by
      rintro rfl
      exact noColon first.symm
    rw [parseParams, trimmed]
    dsimp only
    rw [if_neg plain, split]

theorem parseParams_render
    (wellFormed : ParamsWellFormed params hasTrailing) (fuel : ℕ) (enough : params.length < fuel) :
    parseParams fuel (renderParams params hasTrailing) = (params, hasTrailing) := by
  induction params generalizing fuel with
  | nil =>
    cases show hasTrailing = false from wellFormed
    exact parseParams_nil fuel
  | cons param rest ih =>
    obtain ⟨fuel, rfl⟩ : ∃ before, fuel = before + 1 := ⟨fuel - 1, by omega⟩
    have enough : rest.length < fuel := by simpa using enough
    cases rest with
    | nil =>
      cases hasTrailing with
      | true => rfl
      | false =>
        have alone : standsAlone param = true := wellFormed
        have clean := (standsAlone_iff.mp alone).2.2
        rw [show renderParams [param] false = byte ' ' :: param from rfl, parseParams_space,
          parseParams_word alone fuel (splitWord_eq_self (disjoint_cons_right.mp clean).1)
            rfl, parseParams_nil]
    | cons next rest =>
      obtain ⟨alone, later⟩ : standsAlone param = true ∧
          ParamsWellFormed (next :: rest) hasTrailing := wellFormed
      obtain ⟨some_word, _, clean⟩ := standsAlone_iff.mp alone
      have read := ih later fuel enough
      rcases renderParams_cases (next :: rest) hasTrailing with empty | ⟨text, spaced⟩
      · rw [empty, parseParams_nil] at read
        cases read
      have whole : renderParams (param :: next :: rest) hasTrailing =
          byte ' ' :: (param ++ byte ' ' :: text) := by
        rw [← spaced]
        rfl
      rw [spaced, parseParams_space] at read
      rw [whole, parseParams_space,
        parseParams_word alone fuel
          (splitWord_append (disjoint_cons_right.mp clean).1 text)
          (by rw [List.head?_append_of_ne_nil _ some_word]), read]

theorem paramsWellFormed_of_parse (clean : text.Disjoint illegal) (fuel : ℕ) :
    ParamsWellFormed (parseParams fuel text).1 (parseParams fuel text).2 := by
  induction fuel generalizing text with
  | zero => rfl
  | succ fuel ih =>
    have cleanRest := disjoint_of_subset_left (trimSpaces_subset text) clean
    have noSpace := head_trimSpaces text
    rw [parseParams]
    cases trimmed : trimSpaces text with
    | nil => rfl
    | cons first rest =>
      rw [trimmed] at cleanRest noSpace
      dsimp only
      split
      · exact (disjoint_cons_left.mp cleanRest).2
      rename_i noColon
      obtain ⟨whole, parts⟩ := splitWord_cases (first :: rest)
      have front : (splitWord (first :: rest)).1.head? = some first ∧
          (splitWord (first :: rest)).1 ⊆ first :: rest ∧
          (splitWord (first :: rest)).2 ⊆ first :: rest := by
        rcases parts with ⟨alone, nothing⟩ | divided
        · rw [← alone, nothing]
          exact ⟨rfl, List.Subset.refl _, nil_subset _⟩
        generalize (splitWord (first :: rest)).1 = word at divided
        generalize (splitWord (first :: rest)).2 = after at divided
        rw [divided]
        refine ⟨?_, subset_append_left _ _, ?_⟩
        · cases word with
          | nil =>
            cases divided
            exact absurd rfl noSpace
          | cons b word =>
            cases divided
            rfl
        · exact fun b among => mem_append_right _ (mem_cons_of_mem _ among)
      obtain ⟨isFirst, wordWithin, afterWithin⟩ := front
      refine ParamsWellFormed.cons (standsAlone_iff.mpr ⟨?_, ?_, ?_⟩)
        (ih (disjoint_of_subset_left afterWithin cleanRest))
      · intro empty
        rw [empty] at isFirst
        cases isFirst
      · rw [isFirst]
        exact fun isColon => noColon (Option.some.inj isColon)
      · exact disjoint_cons_right.mpr
          ⟨whole, disjoint_of_subset_left wordWithin cleanRest⟩

namespace Message

def renderCommand (message : Message) : Bytes :=
  message.command ++ renderParams message.params message.hasTrailing

def renderUntagged (message : Message) : Bytes :=
  (message.source.elim [] fun source => byte ':' :: (source.render ++ [byte ' '])) ++
    message.renderCommand

/-- The line of a message, with single spaces between its parts. -/
def render (message : Message) : Bytes :=
  (if message.tags = [] then []
    else byte '@' :: ([byte ';'].intercalate (message.tags.map Tag.render) ++ [byte ' '])) ++
  message.renderUntagged

/-- What the parts of a message must be for its line to read as it. -/
structure WellFormed (message : Message) : Prop where
  tags : ∀ tag ∈ message.tags, tag.WellFormed
  source : ∀ source ∈ message.source, source.WellFormed
  command : validCommand message.command = true
  params : ParamsWellFormed message.params message.hasTrailing

theorem validCommand_clean {command : Bytes} (valid : validCommand command = true) :
    command ≠ [] ∧ command.Disjoint (byte '@' :: byte ':' :: byte ' ' :: illegal) := by
  have letters : ∀ b, (isAsciiAlphanumeric b || b == byte '_' || b == byte '-') = true →
      b ∉ byte '@' :: byte ':' :: byte ' ' :: illegal := by
    decide +kernel
  have alphanumeric : ∀ b, (isAsciiAlphabetic b || isAsciiDigit b) = true →
      (isAsciiAlphanumeric b || b == byte '_' || b == byte '-') = true := by
    intro b isWord
    simp [isAsciiAlphanumeric, isWord]
  cases command with
  | nil => cases valid
  | cons first rest =>
    refine ⟨cons_ne_nil _ _, fun b among => letters b ?_⟩
    simp only [validCommand, Bool.or_eq_true, Bool.and_eq_true, all_eq_true] at valid
    rcases valid with (alphabetic | ⟨_, digits⟩) | ⟨_, wordly⟩
    · exact alphanumeric b (by simp [alphabetic b among])
    · exact alphanumeric b (by simp [digits b among])
    · simpa [Bool.or_eq_true] using wordly b among

variable {message : Message}

section

variable (wellFormed : message.WellFormed)
include wellFormed

theorem WellFormed.renderCommand_first :
    ∃ first rest, message.renderCommand = first :: rest ∧ first ≠ byte ' ' ∧ first ≠ byte ':' ∧
      first ≠ byte '@' := by
  obtain ⟨some_command, clean⟩ := validCommand_clean wellFormed.command
  obtain ⟨first, rest, command⟩ := exists_cons_of_ne_nil some_command
  simp only [command, disjoint_cons_left, mem_cons, not_or] at clean
  exact ⟨first, rest ++ renderParams message.params message.hasTrailing,
    by rw [renderCommand, command]; rfl, clean.1.2.2.1, clean.1.2.1, clean.1.1⟩

theorem WellFormed.parseTagSection_render (some_tag : message.tags ≠ []) :
    parseTagSection ([byte ';'].intercalate (message.tags.map Tag.render)) = .ok message.tags :=
  Tag.parseTagSection_render wellFormed.tags some_tag

/-- The tag section has no space in it, and nothing that a line may not hold. -/
theorem WellFormed.tagSection_disjoint :
    ([byte ';'].intercalate (message.tags.map Tag.render)).Disjoint (byte ' ' :: illegal) := by
  intro b among isBad
  rcases mem_intercalate among with rfl | ⟨item, isItem, inItem⟩
  · revert isBad
    decide
  · obtain ⟨tag, isTag, rfl⟩ := mem_map.mp isItem
    exact (disjoint_cons_right.mp (wellFormed.tags tag isTag).render_disjoint).2 inItem isBad

theorem WellFormed.splitTags_render :
    splitTags message.render = .ok (message.tags, message.renderUntagged) := by
  rw [render]
  split
  · rename_i noTags
    rw [nil_append, noTags]
    -- What is first without tags is the `:` of the source or the command.
    have untagged : ∃ first rest, message.renderUntagged = first :: rest ∧ first ≠ byte '@' := by
      obtain ⟨first, rest, command, _, _, noAt⟩ := wellFormed.renderCommand_first
      rw [renderUntagged]
      cases message.source with
      | none => exact ⟨first, rest, command, noAt⟩
      | some source => exact ⟨_, _, rfl, by decide⟩
    obtain ⟨first, rest, untagged, noAt⟩ := untagged
    rw [untagged, splitTags]
    exact if_neg noAt
  · rename_i some_tag
    have whole := (disjoint_cons_right.mp wellFormed.tagSection_disjoint).1
    rw [cons_append, append_assoc, singleton_append, splitTags, if_pos rfl, splitOnce_append whole]
    dsimp only
    rw [wellFormed.parseTagSection_render some_tag]
    rfl

theorem WellFormed.splitSource_render :
    splitSource message.renderUntagged = .ok (message.source, message.renderCommand) := by
  obtain ⟨first, rest, command, noSpace, noColon, _⟩ := wellFormed.renderCommand_first
  have trimmed : trimSpaces message.renderCommand = message.renderCommand :=
    trimSpaces_eq_self (by rw [command]; simpa using noSpace)
  rw [renderUntagged]
  cases isSource : message.source with
  | none =>
    rw [Option.elim_none, nil_append, splitSource, trimmed, command]
    exact if_neg noColon
  | some source =>
    have sourced := wellFormed.source source isSource
    have whole := (disjoint_cons_right.mp sourced.clean).1
    rw [Option.elim_some, cons_append, append_assoc, singleton_append, splitSource,
      trimSpaces_eq_self (by simp; decide)]
    dsimp only
    rw [if_pos rfl, splitOnce_append whole]
    dsimp only
    rw [if_neg sourced.render_ne_nil, sourced.parse_render, trimmed]
    rfl

theorem WellFormed.render_disjoint : message.render.Disjoint illegal := by
  have section_ := (disjoint_cons_right.mp wellFormed.tagSection_disjoint).2
  have command := (validCommand_clean wellFormed.command).2
  simp only [disjoint_cons_right] at command
  have single : [byte ' '].Disjoint illegal := disjoint_of_all (by decide)
  rw [render, renderUntagged, renderCommand]
  simp only [disjoint_append_left]
  refine ⟨?_, ?_, command.2.2.2, (renderParams_disjoint wellFormed.params).1⟩
  · split
    · exact disjoint_nil_left _
    · exact disjoint_cons_left.mpr
        ⟨by decide, disjoint_append_left.mpr ⟨section_, single⟩⟩
  · cases isSource : message.source with
    | none => exact disjoint_nil_left _
    | some source =>
      have clean := (disjoint_cons_right.mp (wellFormed.source source isSource).clean).2
      exact disjoint_cons_left.mpr
        ⟨by decide, disjoint_append_left.mpr ⟨clean, single⟩⟩

/-- The first word of the command's part is the command, and the rest reads as its parameters. -/
theorem WellFormed.splitWord_render :
    ∃ text, splitWord message.renderCommand = (message.command, text) ∧
      parseParams (text.length + 1) text = (message.params, message.hasTrailing) := by
  have clean := (validCommand_clean wellFormed.command).2
  simp only [disjoint_cons_right] at clean
  have short := (renderParams_disjoint wellFormed.params).2
  rcases renderParams_cases message.params message.hasTrailing with empty | ⟨text, spaced⟩
  · refine ⟨[], ?_, ?_⟩
    · rw [renderCommand, empty, append_nil, splitWord_eq_self clean.2.2.1]
    · rw [empty, length_nil] at short
      have read := parseParams_render wellFormed.params 1 (by omega)
      rwa [empty] at read
  · refine ⟨text, ?_, ?_⟩
    · rw [renderCommand, spaced, splitWord_append clean.2.2.1]
    · rw [spaced, length_cons] at short
      have read := parseParams_render wellFormed.params (text.length + 1) (by omega)
      rwa [spaced, parseParams_space] at read

end

/-- Parsing stage by stage. -/
theorem parse_eq_ok_iff {line : Bytes} :
    parse line = .ok message ↔
      containsIllegalByte line = false ∧ ∃ untagged text after,
        splitTags line = .ok (message.tags, untagged) ∧
        splitSource untagged = .ok (message.source, text) ∧ text ≠ [] ∧
        splitWord text = (message.command, after) ∧ validCommand message.command = true ∧
        parseParams (after.length + 1) after = (message.params, message.hasTrailing) := by
  obtain ⟨tags, source, command, params, hasTrailing⟩ := message
  constructor
  · intro parsed
    rw [parse] at parsed
    split at parsed
    · cases parsed
    rename_i legal
    obtain ⟨⟨tags, untagged⟩, tagged, parsed⟩ := bind_eq_ok parsed
    obtain ⟨⟨source, text⟩, sourced, parsed⟩ := bind_eq_ok parsed
    dsimp only at parsed
    split at parsed
    · cases parsed
    rename_i some_text
    rcases word : splitWord text with ⟨command, after⟩
    rw [word] at parsed
    dsimp only at parsed
    split at parsed
    · cases parsed
    rename_i valid
    rcases read : parseParams (after.length + 1) after with ⟨params, hasTrailing⟩
    rw [read] at parsed
    cases parsed
    exact ⟨by simpa using legal, untagged, text, after, tagged, sourced, some_text, word,
      by simpa using valid, read⟩
  · rintro ⟨legal, untagged, text, after, tagged, sourced, some_text, word, valid, read⟩
    simp [parse, legal, tagged, sourced, some_text, word, valid, read, bind, Except.bind, pure,
      Except.pure]

/-- The line of a well-formed message parses as that message. -/
theorem WellFormed.parse_render (wellFormed : message.WellFormed) :
    parse message.render = .ok message := by
  obtain ⟨first, rest, command, _⟩ := wellFormed.renderCommand_first
  obtain ⟨after, word, read⟩ := wellFormed.splitWord_render
  have some_text : message.renderCommand ≠ [] := by
    rw [command]
    exact cons_ne_nil _ _
  exact parse_eq_ok_iff.mpr ⟨containsIllegalByte_eq_false.mpr wellFormed.render_disjoint,
    message.renderUntagged, message.renderCommand, after, wellFormed.splitTags_render,
    wellFormed.splitSource_render, some_text, word, wellFormed.command, read⟩

/-! ## What parses is well formed -/

theorem splitTags_eq_ok {line untagged : Bytes} {tags : List Tag} (clean : line.Disjoint illegal)
    (tagged : splitTags line = .ok (tags, untagged)) :
    (∀ tag ∈ tags, tag.WellFormed) ∧ untagged ⊆ line := by
  unfold splitTags at tagged
  split at tagged
  · cases tagged
    exact ⟨nofun, List.Subset.refl _⟩
  rename_i first afterAt
  split at tagged
  · rcases splitOnce_cases (byte ' ') afterAt with ⟨_, split⟩ | ⟨rawTags, after, rfl, whole, split⟩
    · rw [split] at tagged
      cases tagged
    rw [split] at tagged
    obtain ⟨items, isItems, tagged⟩ := bind_eq_ok tagged
    cases tagged
    simp only [disjoint_cons_left, disjoint_append_left] at clean
    refine ⟨fun tag among => ?_, fun b among => by simp [among]⟩
    obtain ⟨item, isItem, parsed⟩ := exists_of_mapM_eq_ok isItems among
    have within : item ⊆ rawTags := by
      intro b inItem
      have joined : [byte ';'].intercalate (rawTags.splitOn (byte ';')) = rawTags :=
        intercalate_splitOn _
      rw [← joined]
      exact mem_intercalate_of_mem isItem inItem
    refine Tag.wellFormed_of_parse ?_ parsed
    simp only [tagEnds, disjoint_cons_right]
    exact ⟨notMem_of_mem_splitOn isItem, fun isSpace => whole (within isSpace),
      disjoint_of_subset_left within clean.2.1⟩
  · cases tagged
    exact ⟨nofun, List.Subset.refl _⟩

theorem splitSource_eq_ok {text rest : Bytes} {source : Option Source}
    (clean : text.Disjoint illegal) (sourced : splitSource text = .ok (source, rest)) :
    (∀ source' ∈ source, source'.WellFormed) ∧ rest ⊆ text := by
  have within := trimSpaces_subset text
  unfold splitSource at sourced
  split at sourced
  · cases sourced
    exact ⟨nofun, nil_subset _⟩
  rename_i first afterColon trimmed
  rw [trimmed] at within
  split at sourced
  · rcases splitOnce_cases (byte ' ') afterColon with
      ⟨_, split⟩ | ⟨rawSource, after, rfl, whole, split⟩
    · rw [split] at sourced
      cases sourced
    rw [split] at sourced
    dsimp only at sourced
    split at sourced
    · cases sourced
    obtain ⟨read, isRead, sourced⟩ := bind_eq_ok sourced
    cases sourced
    have cleanRaw : rawSource.Disjoint illegal :=
      disjoint_of_subset_left (fun b among => within (by simp [among])) clean
    refine ⟨?_, fun b among => within ?_⟩
    · rintro _ ⟨⟩
      exact Source.wellFormed_of_parse (disjoint_cons_right.mpr ⟨whole, cleanRaw⟩) isRead
    · simp [trimSpaces_subset after among]
  · cases sourced
    exact ⟨nofun, within⟩

theorem wellFormed_of_parse {line : Bytes} (parsed : parse line = .ok message) :
    message.WellFormed := by
  obtain ⟨legal, untagged, text, after, tagged, sourced, _, word, valid, read⟩ :=
    parse_eq_ok_iff.mp parsed
  have clean := containsIllegalByte_eq_false.mp legal
  obtain ⟨tags, untaggedWithin⟩ := splitTags_eq_ok clean tagged
  have cleanUntagged := disjoint_of_subset_left untaggedWithin clean
  obtain ⟨source, textWithin⟩ := splitSource_eq_ok cleanUntagged sourced
  have cleanText := disjoint_of_subset_left textWithin cleanUntagged
  have cleanAfter : after.Disjoint illegal := by
    have parts := (splitWord_cases text).2
    simp only [word] at parts
    rcases parts with ⟨_, nothing⟩ | divided
    · rw [nothing]
      exact disjoint_nil_left _
    · rw [divided, disjoint_append_left, disjoint_cons_left] at cleanText
      exact cleanText.2.2
  have params := paramsWellFormed_of_parse cleanAfter (after.length + 1)
  rw [read] at params
  exact ⟨tags, source, valid, params⟩

/-- A line rebuilt from what was parsed parses as the same, and an escaped value
is wire-safe and reads as itself. -/
theorem rebuilt_lines_parse :
    (∀ line message, parse line = .ok message → parse message.render = .ok message) ∧
      ∀ value : Bytes, 0 ∉ value →
        unescapeTagValue (escapeTagValue value) = value ∧
          (escapeTagValue value).Disjoint [byte ';', byte ' ', 13, 10, 0] :=
  ⟨fun _ _ parsed => (wellFormed_of_parse parsed).parse_render,
    fun value noNul => ⟨unescape_escape noNul, escape_disjoint value⟩⟩

theorem rebuilt_lines_parse_tagged :
    ∃ message, parse (ascii "@a=x\\sy;b;a=  :n@h!@  PING  x :") = .ok message ∧
      message.render = ascii "@a=x\\sy;b;a= :n@h!@ PING x :" ∧
      parse message.render = .ok message ∧
      unescapeTagValue (escapeTagValue (ascii "; \\")) = ascii "; \\" := by
  have parsed : parse (ascii "@a=x\\sy;b;a=  :n@h!@  PING  x :") = .ok
      { tags := [⟨ascii "a", some (ascii "x y")⟩, ⟨ascii "b", none⟩, ⟨ascii "a", some []⟩]
        source := some ⟨ascii "n", none, some (ascii "h!@")⟩
        command := ascii "PING"
        params := [ascii "x", []]
        hasTrailing := true } := by
    decide +kernel
  exact ⟨_, parsed, by decide +kernel, rebuilt_lines_parse.1 _ _ parsed,
    (rebuilt_lines_parse.2 _ (by decide)).1⟩

end Message

end E6irc
