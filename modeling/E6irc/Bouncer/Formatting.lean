import E6irc.Base.Scan

/-!
# Formatting codes, in the client and on the way to a provider

The client (`e6irc-client/src/lib.rs`, `strip_formatting`) and the bridge
(`bouncer/mod.rs`, `strip_irc_formatting`) both take the formatting codes out of a
text.  A colour code takes what follows it as its argument: one or two digits, or six
hex digits, and the same again behind a comma.  The client's hex colour is six digits
or nothing; the bridge's is up to six, so it takes `Beef` from a text that goes on with
it after a bare code.
-/

namespace E6irc

open Base List

def isAsciiDigitChar (c : Char) : Bool :=
  '0' ≤ c && c ≤ '9'

def isAsciiHexdigit (c : Char) : Bool :=
  isAsciiDigitChar c || ('a' ≤ c && c ≤ 'f') || ('A' ≤ c && c ≤ 'F')

def isAsciiControl (c : Char) : Bool :=
  c < ' ' || c == '\x7f'

/-- How many of the first `limit` characters are accepted, up to one that is not. -/
def spanLen (limit : ℕ) (accept : Char → Bool) (rest : List Char) : ℕ :=
  ((rest.take limit).takeWhile accept).length

namespace Client

/-- How many characters at the start of `rest` form one colour of the code. -/
def colourLen (code : Char) (rest : List Char) : ℕ :=
  if code = '\x03' then spanLen 2 isAsciiDigitChar rest
  else if spanLen 6 isAsciiHexdigit rest = 6 then 6
  else 0

/-- What a colour code takes: a foreground, and a background behind a comma. -/
def colours (code : Char) (rest : List Char) : ℕ :=
  let foreground := colourLen code rest
  if 0 < foreground ∧ rest[foreground]? = some ',' then
    let background := colourLen code (rest.drop (foreground + 1))
    if 0 < background then foreground + 1 + background else foreground
  else foreground

def isColour (c : Char) : Bool :=
  c == '\x03' || c == '\x04'

def isCode (c : Char) : Bool :=
  ['\x02', '\x0f', '\x11', '\x16', '\x1d', '\x1e', '\x1f'].contains c || isColour c

def stripFormatting (text : List Char) : List Char :=
  scan (fun c rest => if isColour c then colours c rest else 0)
    (fun c => if isCode c then [] else [c]) 0 text

end Client

namespace Bouncer

/-- What a colour takes: `fg`, then `,bg` when a background follows the comma. -/
def color (max : ℕ) (accept : Char → Bool) (chars : List Char) : ℕ :=
  let taken := spanLen max accept chars
  if 0 < taken then
    match chars.drop taken with
    | ',' :: ahead => if ahead.head?.any accept then taken + 1 + spanLen max accept ahead else taken
    | _ => taken
  else 0

/-- What a character takes with it. -/
def colorArg (c : Char) (rest : List Char) : ℕ :=
  if c = '\x03' then color 2 isAsciiDigitChar rest
  else if c = '\x04' then color 6 isAsciiHexdigit rest
  else 0

/-- Every character but the ASCII controls, and of them the tab. -/
def isShown (c : Char) : Bool :=
  c == '\t' || !isAsciiControl c

def stripIrcFormatting (text : List Char) : List Char :=
  scan colorArg (fun c => if isShown c then [c] else []) 0 text

end Bouncer

/-! ## Runs of digits -/

section

variable {limit : ℕ} {accept : Char → Bool} {rest : List Char}

theorem spanLen_le_limit : spanLen limit accept rest ≤ limit :=
  (( takeWhile_prefix _).length_le.trans (length_take_le _ _))

theorem spanLen_le_length : spanLen limit accept rest ≤ rest.length :=
  ( takeWhile_prefix _).length_le.trans (length_take_le' _ _)

/-- A run is where the first character is accepted. -/
theorem spanLen_pos (some_limit : 0 < limit) :
    0 < spanLen limit accept rest ↔ rest.head?.any accept := by
  obtain ⟨limit, rfl⟩ := Nat.exists_eq_succ_of_ne_zero some_limit.ne'
  cases rest with
  | nil => simp [spanLen]
  | cons c rest => by_cases accepted : accept c <;> simp [spanLen, accepted]

theorem accept_of_mem_run {c : Char} (among : c ∈ rest.take (spanLen limit accept rest)) :
    accept c = true := by
  have front : rest.take (spanLen limit accept rest) = (rest.take limit).takeWhile accept := by
    have inside : (rest.take limit).takeWhile accept <+: rest :=
      ( takeWhile_prefix _).trans ( take_prefix _ _)
    exact (prefix_iff_eq_take.mp inside).symm
  rw [front] at among
  exact mem_takeWhile_imp among

end

namespace Bouncer

/-! ## What the codes take -/

section

variable {max : ℕ} {accept : Char → Bool}

/-- A colour takes a run, and a second one behind a comma. -/
theorem color_eq (some_max : 0 < max) (rest : List Char) : color max accept rest =
    if 0 < spanLen max accept rest ∧ rest[spanLen max accept rest]? = some ',' ∧
        0 < spanLen max accept (rest.drop (spanLen max accept rest + 1)) then
      spanLen max accept rest + 1 + spanLen max accept (rest.drop (spanLen max accept rest + 1))
    else spanLen max accept rest := by
  unfold color
  dsimp only
  generalize spanLen max accept rest = taken
  rw [← drop_drop, ← List.head?_drop]
  cases rest.drop taken with
  | nil =>
    by_cases some_taken : 0 < taken
    · simp [some_taken]
    · simp [some_taken]
      omega
  | cons c ahead =>
    simp only [List.head?_cons, Option.some.injEq, drop_one, tail_cons, spanLen_pos some_max]
    by_cases some_taken : 0 < taken
    · by_cases comma : c = ','
      · subst comma
        simp [some_taken]
      · simp [some_taken, comma]
    · simp [some_taken]
      omega

theorem color_le_length (some_max : 0 < max) (rest : List Char) :
    color max accept rest ≤ rest.length := by
  have first : spanLen max accept rest ≤ rest.length := spanLen_le_length
  have second : spanLen max accept (rest.drop (spanLen max accept rest + 1)) ≤
      (rest.drop (spanLen max accept rest + 1)).length := spanLen_le_length
  rw [color_eq some_max]
  split
  · rename_i both
    have inside := (List.getElem?_eq_some_iff.mp both.2.1).1
    rw [length_drop] at second
    omega
  · exact first

/-- A colour takes characters it accepts, and a comma between them. -/
theorem of_mem_color (some_max : 0 < max) {rest : List Char} {c : Char}
    (among : c ∈ rest.take (color max accept rest)) : accept c = true ∨ c = ',' := by
  rw [color_eq some_max] at among
  split at among
  · rename_i both
    rw [take_add, take_add, mem_append, mem_append] at among
    rcases among with (first | comma) | second
    · exact .inl (accept_of_mem_run first)
    · rw [take_one_drop_eq_of_lt_length (List.getElem?_eq_some_iff.mp both.2.1).1,
        mem_singleton] at comma
      exact .inr (comma.trans (List.getElem?_eq_some_iff.mp both.2.1).2)
    · exact .inl (accept_of_mem_run second)
  · exact .inl (accept_of_mem_run among)

end

/-- The code's hex digits are six or none, and so are those behind its comma. -/
def WholeColour (rest : List Char) : Prop :=
  spanLen 6 isAsciiHexdigit rest = 0 ∨ spanLen 6 isAsciiHexdigit rest = 6 ∧
    (rest[6]? = some ',' → spanLen 6 isAsciiHexdigit (rest.drop 7) = 0 ∨
      spanLen 6 isAsciiHexdigit (rest.drop 7) = 6)

/-- The two agree on a colour of digits. -/
theorem color_digits (rest : List Char) :
    color 2 isAsciiDigitChar rest = Client.colours '\x03' rest := by
  rw [color_eq (by decide)]
  simp only [Client.colours, Client.colourLen, if_true]
  by_cases comma : 0 < spanLen 2 isAsciiDigitChar rest ∧
      rest[spanLen 2 isAsciiDigitChar rest]? = some ','
  · simp [comma]
  · rw [if_neg comma, if_neg fun all => comma ⟨all.1, all.2.1⟩]

/-- The bridge's hex colour takes no less than the client's, and the same exactly if the
colour is whole. -/
theorem color_hex (rest : List Char) :
    Client.colours '\x04' rest ≤ color 6 isAsciiHexdigit rest ∧
      (color 6 isAsciiHexdigit rest = Client.colours '\x04' rest ↔ WholeColour rest) := by
  have bound (rest : List Char) : spanLen 6 isAsciiHexdigit rest ≤ 6 := spanLen_le_limit
  have code : ('\x04' : Char) ≠ '\x03' := by decide
  have first := bound rest
  rw [color_eq (by decide), WholeColour]
  simp only [Client.colours, Client.colourLen, if_neg code]
  by_cases six : spanLen 6 isAsciiHexdigit rest = 6
  · have second := bound (rest.drop 7)
    rw [six, if_pos rfl]
    by_cases comma : rest[6]? = some ','
    · have some_six : 0 < 6 := by decide
      simp only [comma, some_six, true_and, and_self, if_true, Nat.reduceAdd, forall_const]
      generalize spanLen 6 isAsciiHexdigit (rest.drop 7) = background at second ⊢
      by_cases whole : background = 6
      · simp [whole]
      simp only [whole, if_false, Nat.lt_irrefl, or_false]
      split_ifs
      all_goals
        rw [false_or]
        omega
    · simp only [comma, false_and, and_false, if_false, le_refl, false_imp_iff, and_true, or_true]
  · rw [if_neg six, if_neg (by simp)]
    split_ifs <;> omega

/-- Digits and commas are no codes, and are shown. -/
theorem shown_of_between {c : Char} (low : '!' ≤ c) (high : c ≤ '~') :
    Client.isColour c = false ∧ isShown c = true := by
  have above (d : Char) (below : d < '!') : c ≠ d := (lt_of_lt_of_le below low).ne'
  have under_delete : c ≠ '\x7f' := (lt_of_le_of_lt high (by decide)).ne
  have printed : ¬ c < ' ' := not_lt.mpr (le_trans (by decide) low)
  simp [Client.isColour, isShown, isAsciiControl, above '\x03' (by decide),
    above '\x04' (by decide), under_delete, printed]

theorem between_of_hexdigit {c : Char} (digit : isAsciiHexdigit c = true) : '!' ≤ c ∧ c ≤ '~' := by
  simp only [isAsciiHexdigit, isAsciiDigitChar, Bool.or_eq_true, Bool.and_eq_true,
    decide_eq_true_eq] at digit
  rcases digit with (⟨low, high⟩ | ⟨low, high⟩) | ⟨low, high⟩
  · exact ⟨le_trans (b := '0') (by decide) low, le_trans (b := '9') high (by decide)⟩
  · exact ⟨le_trans (b := 'a') (by decide) low, le_trans (b := 'f') high (by decide)⟩
  · exact ⟨le_trans (b := 'A') (by decide) low, le_trans (b := 'F') high (by decide)⟩

theorem shown_of_mem_colorArg {c d : Char} {rest : List Char}
    (among : d ∈ rest.take (colorArg c rest)) : Client.isColour d = false ∧ isShown d = true := by
  have comma : Client.isColour ',' = false ∧ isShown ',' = true := by decide
  unfold colorArg at among
  split at among
  · rcases of_mem_color (by decide) among with digit | rfl
    · have between := between_of_hexdigit (c := d) (by simp [isAsciiHexdigit, digit])
      exact shown_of_between between.1 between.2
    · exact comma
  split at among
  · rcases of_mem_color (by decide) among with digit | rfl
    · have between := between_of_hexdigit digit
      exact shown_of_between between.1 between.2
    · exact comma
  · simp at among

/-- What the client's codes take. -/
def colourArg (c : Char) (rest : List Char) : ℕ :=
  if Client.isColour c then Client.colours c rest else 0

theorem colorArg_plain {c : Char} (plain : Client.isColour c = false) (rest : List Char) :
    colorArg c rest = 0 := by
  simp only [Client.isColour, Bool.or_eq_false_iff, beq_eq_false_iff_ne] at plain
  rw [colorArg, if_neg plain.1, if_neg plain.2]

/-- Any character but the hex code takes the same in both. -/
theorem colorArg_of_ne_hex {c : Char} (other : c ≠ '\x04') (rest : List Char) :
    colorArg c rest = colourArg c rest := by
  rcases eq_or_ne c '\x03' with rfl | digits
  · exact color_digits rest
  · have plain : Client.isColour c = false := by simp [Client.isColour, digits, other]
    rw [colorArg_plain plain, colourArg, plain]
    rfl

theorem takes_color : TakesMore colorArg colourArg fun c => if isShown c then [c] else [] where
  least c rest := by
    rcases eq_or_ne c '\x04' with rfl | other
    · exact (color_hex rest).1
    · exact (colorArg_of_ne_hex other rest).ge
  within c rest := by
    unfold colorArg
    split
    · exact color_le_length (by decide) rest
    split
    · exact color_le_length (by decide) rest
    · exact Nat.zero_le _
  plain c rest d among := by
    obtain ⟨plain, shown⟩ := shown_of_mem_colorArg among
    exact ⟨fun more => colorArg_plain plain more, by simp [shown]⟩

/-- Every code is a control, and none is the tab. -/
theorem not_shown_of_code {c : Char} (code : Client.isCode c = true) : isShown c = false := by
  have each : ['\x02', '\x0f', '\x11', '\x16', '\x1d', '\x1e', '\x1f', '\x03', '\x04'].all
      (fun c => !isShown c) = true := by
    decide
  have among : c ∈ ['\x02', '\x0f', '\x11', '\x16', '\x1d', '\x1e', '\x1f', '\x03', '\x04'] := by
    simpa [Client.isCode, Client.isColour, or_assoc] using code
  simpa using all_eq_true.mp each c among

/-- The text's hex colours are whole. -/
def WholeColours (text : List Char) : Prop :=
  ∀ rest, '\x04' :: rest <:+ text → WholeColour rest

/-- What the bridge shows is what the client does without the other controls, exactly if
all hex colours of the text are whole. -/
theorem stripIrcFormatting_eq_iff (text : List Char) :
    stripIrcFormatting text = (Client.stripFormatting text).filter isShown ↔ WholeColours text := by
  have emits : (fun c => (if Client.isCode c then [] else [c]).filter isShown) =
      fun c => if isShown c then [c] else [] := by
    funext c
    by_cases code : Client.isCode c = true
    · simp [code, not_shown_of_code code]
    · by_cases shown : isShown c = true <;> simp [code, shown]
  rw [stripIrcFormatting, Client.stripFormatting, filter_scan, emits]
  refine (takes_color.scan_eq_iff text).trans
    ⟨fun agree rest inside => ?_, fun whole c rest inside => ?_⟩
  · exact (color_hex rest).2.mp (agree '\x04' rest inside)
  · rcases eq_or_ne c '\x04' with rfl | other
    · exact (color_hex rest).2.mpr (whole rest inside)
    · exact colorArg_of_ne_hex other rest

/-- A bare hex code before a word that begins with hex digits. -/
theorem stripIrcFormatting_beef :
    stripIrcFormatting "\x04Beef stew".toList = " stew".toList ∧
      (Client.stripFormatting "\x04Beef stew".toList).filter isShown = "Beef stew".toList := by
  decide +kernel

end Bouncer

end E6irc
