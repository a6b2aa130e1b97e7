import Mathlib

/-!
# Wildcard patterns

A pattern is a list of tokens, each of which takes a part of the text: `any` any
run, `one` a single symbol and `lit` its own.  A text matches when it can be
divided into parts, one for each token in order.

The lemmas are those of a matcher that backtracks over the last `any` alone: a
stretch of tokens without `any` takes a stretch of text of its own length
(`Fits`), so once it has been placed, an earlier `any` need not be moved again
(`matches_suffix_fits`).
-/

namespace E6irc.Base

open List

variable {α : Type}

inductive Token (α : Type)
  | any | one | lit (a : α)
deriving DecidableEq, Repr

namespace Token

/-- What a token may take of the text. -/
def Takes : Token α → List α → Prop
  | any, _ => True
  | one, part => ∃ a, part = [a]
  | lit a, part => part = [a]

/-- The text divides into parts that the tokens take in order. -/
def Matches (pattern : List (Token α)) (text : List α) : Prop :=
  ∃ parts, List.Forall₂ Takes pattern parts ∧ parts.flatten = text

variable {tok : Token α} {pattern later : List (Token α)} {text : List α} {a : α}

@[simp] theorem matches_nil : Matches ([] : List (Token α)) text ↔ text = [] := by
  constructor
  · rintro ⟨parts, taken, rfl⟩
    cases taken
    rfl
  · rintro rfl
    exact ⟨[], .nil, rfl⟩

theorem matches_cons : Matches (tok :: pattern) text ↔
    ∃ part rest, text = part ++ rest ∧ tok.Takes part ∧ Matches pattern rest := by
  constructor
  · rintro ⟨parts, taken, rfl⟩
    cases taken with
    | cons head tail => exact ⟨_, _, rfl, head, _, tail, rfl⟩
  · rintro ⟨part, rest, rfl, head, parts, tail, rfl⟩
    exact ⟨part :: parts, .cons head tail, rfl⟩

theorem matches_append : Matches (pattern ++ later) text ↔
    ∃ front rest, text = front ++ rest ∧ Matches pattern front ∧ Matches later rest := by
  induction pattern generalizing text with
  | nil =>
    simp only [nil_append, matches_nil]
    constructor
    · intro whole
      exact ⟨[], text, rfl, rfl, whole⟩
    · rintro ⟨front, rest, rfl, rfl, whole⟩
      exact whole
  | cons tok pattern ih =>
    simp only [cons_append, matches_cons, ih]
    constructor
    · rintro ⟨part, _, rfl, head, front, rest, rfl, mid, tail⟩
      exact ⟨part ++ front, rest, by simp, ⟨part, front, rfl, head, mid⟩, tail⟩
    · rintro ⟨_, rest, rfl, ⟨part, front, rfl, head, mid⟩, tail⟩
      exact ⟨part, front ++ rest, by simp, head, front, rest, rfl, mid, tail⟩

/-- An `any` in front lets the rest match any suffix. -/
theorem matches_any_cons : Matches (any :: pattern) text ↔
    ∃ rest, rest <:+ text ∧ Matches pattern rest := by
  rw [matches_cons]
  constructor
  · rintro ⟨part, rest, rfl, -, tail⟩
    exact ⟨rest, suffix_append part rest, tail⟩
  · rintro ⟨rest, ⟨part, rfl⟩, tail⟩
    exact ⟨part, rest, rfl, trivial, tail⟩

/-- Another token takes the first symbol or nothing matches. -/
theorem matches_cons_cons (single : tok ≠ any) : Matches (tok :: pattern) (a :: text) ↔
    tok.Takes [a] ∧ Matches pattern text := by
  have takes_one : ∀ part, tok.Takes part → ∃ b, part = [b] := by
    intro part takes
    cases tok with
    | any => exact absurd rfl single
    | one => exact takes
    | lit c => exact ⟨c, takes⟩
  rw [matches_cons]
  constructor
  · rintro ⟨part, rest, whole, head, tail⟩
    obtain ⟨b, rfl⟩ := takes_one part head
    cases whole
    exact ⟨head, tail⟩
  · rintro ⟨head, tail⟩
    exact ⟨[a], text, rfl, head, tail⟩

theorem not_matches_cons_nil (single : tok ≠ any) : ¬ Matches (tok :: pattern) ([] : List α) := by
  rw [matches_cons]
  rintro ⟨part, rest, whole, head, -⟩
  obtain ⟨rfl, -⟩ := append_eq_nil_iff.mp whole.symm
  cases tok with
  | any => exact single rfl
  | one | lit c => simp [Takes] at head

/-- Only `any` tokens match the empty text. -/
theorem matches_empty : Matches pattern ([] : List α) ↔ ∀ tok ∈ pattern, tok = any := by
  induction pattern with
  | nil => simp
  | cons tok pattern ih =>
    rcases Classical.em (tok = any) with rfl | single
    · simp only [matches_any_cons, suffix_nil, exists_eq_left, ih, forall_mem_cons, true_and]
    · simp only [not_matches_cons_nil single, forall_mem_cons, single, false_and]

/-! ## Stretches without `any` -/

/-- Each token takes the symbol in its place. -/
def Fits (pattern : List (Token α)) (text : List α) : Prop :=
  List.Forall₂ (fun tok a => tok ≠ any ∧ tok.Takes [a]) pattern text

theorem Fits.snoc (fits : Fits pattern text) (single : tok ≠ any) (takes : tok.Takes [a]) :
    Fits (pattern ++ [tok]) (text ++ [a]) :=
  rel_append fits (.cons ⟨single, takes⟩ .nil)

theorem Fits.matches_append_iff {rest : List α} (fits : Fits pattern text) :
    Matches (pattern ++ later) (text ++ rest) ↔ Matches later rest := by
  induction fits with
  | nil => rfl
  | cons head _ ih =>
    rw [cons_append, cons_append, matches_cons_cons head.1, ih]
    exact and_iff_right head.2

/-- Tokens without an `any` among them take as many symbols as they are. -/
theorem length_of_matches (single : ∀ tok ∈ pattern, tok ≠ any) (whole : Matches pattern text) :
    text.length = pattern.length := by
  induction pattern generalizing text with
  | nil => simpa using whole
  | cons tok pattern ih =>
    have head := single tok mem_cons_self
    cases text with
    | nil => exact absurd whole (not_matches_cons_nil head)
    | cons a text =>
      have tail := ((matches_cons_cons head).mp whole).2
      rw [length_cons, length_cons, ih (fun tok mem => single tok (mem_cons_of_mem _ mem)) tail]

theorem Fits.single (fits : Fits pattern text) : ∀ tok ∈ pattern, tok ≠ any := by
  induction fits with
  | nil => simp
  | cons head _ ih => exact forall_mem_cons.mpr ⟨head.1, ih⟩

/-- Moving the start of a stretch that fits does not let what follows its next
`any` match anything more. -/
theorem matches_suffix_fits {rest : List α} (fits : Fits pattern text) :
    (∃ s, s <:+ text ++ rest ∧ Matches (pattern ++ any :: later) s) ↔
      ∃ s, s <:+ rest ∧ Matches later s := by
  constructor
  · rintro ⟨s, suffix, whole⟩
    obtain ⟨front, back, rfl, fixed, free⟩ := matches_append.mp whole
    obtain ⟨last, end_, tail⟩ := matches_any_cons.mp free
    have consumed : front.length = text.length :=
      (length_of_matches fits.single fixed).trans fits.length_eq
    have short : back.length ≤ rest.length := by
      have total := suffix.length_le
      simp only [length_append] at total
      omega
    have inner : back <:+ rest :=
      suffix_of_suffix_length_le ((suffix_append front back).trans suffix)
        (suffix_append text rest) short
    exact ⟨last, end_.trans inner, tail⟩
  · intro later_matches
    exact ⟨text ++ rest, suffix_refl _,
      fits.matches_append_iff.mpr (matches_any_cons.mpr later_matches)⟩

/-! ## What a pattern asks of its texts -/

/-- A text has every literal of the pattern, as often as the pattern has it. -/
theorem count_le_of_matches [DecidableEq α] (whole : Matches pattern text) (c : α) :
    pattern.count (lit c) ≤ text.count c := by
  induction pattern generalizing text with
  | nil => simp
  | cons tok pattern ih =>
    obtain ⟨part, rest, rfl, head, tail⟩ := matches_cons.mp whole
    have later := ih tail
    rw [count_append, count_cons]
    rcases eq_or_ne tok (lit c) with rfl | other
    · have part_eq : part = [c] := head
      simp only [part_eq, count_singleton_self, beq_self_eq_true, if_true]
      omega
    · simp only [beq_iff_eq, other, if_false]
      omega

/-- A literal that neither side of it has in the text divides the match. -/
theorem matches_around {front back : List α} {sep : α} (first : sep ∉ front) (last : sep ∉ back) :
    Matches (pattern ++ lit sep :: later) (front ++ sep :: back) ↔
      Matches pattern front ∧ Matches later back := by
  constructor
  · intro whole
    obtain ⟨left, rest, divided, before, behind⟩ := matches_append.mp whole
    obtain ⟨part, right, rfl, head, after⟩ := matches_cons.mp behind
    rw [show part = [sep] from head] at divided
    obtain ⟨rfl, -, rfl⟩ := (append_cons_inj_of_notMem first last).mp divided
    exact ⟨before, after⟩
  · rintro ⟨before, after⟩
    exact matches_append.mpr ⟨front, sep :: back, rfl, before,
      matches_cons.mpr ⟨[sep], back, rfl, rfl, after⟩⟩

/-- A pattern of literals matches itself alone. -/
theorem matches_map_lit {word : List α} : Matches (word.map lit) text ↔ text = word := by
  induction word generalizing text with
  | nil => exact matches_nil
  | cons a word ih =>
    rw [map_cons, matches_cons]
    constructor
    · rintro ⟨part, rest, rfl, head, tail⟩
      rw [show part = [a] from head, ih.mp tail]
      rfl
    · rintro rfl
      exact ⟨[a], word, rfl, rfl, ih.mpr rfl⟩

/-- A pattern of wildcards only asks for a length: at least the number of its
`one`s with an `any` among them, exactly that without. -/
theorem matches_wildcards [DecidableEq α] (wild : ∀ tok ∈ pattern, tok = any ∨ tok = one) :
    Matches pattern text ↔
      pattern.count one ≤ text.length ∧ (any ∉ pattern → text.length = pattern.count one) := by
  induction pattern generalizing text with
  | nil => simp
  | cons tok pattern ih =>
    obtain ⟨head, tail⟩ := forall_mem_cons.mp wild
    rcases head with rfl | rfl
    · rw [matches_any_cons]
      simp only [ih tail, mem_cons, true_or, not_true_eq_false, false_implies, and_true]
      rw [count_cons_of_ne (by simp)]
      constructor
      · rintro ⟨rest, suffix, enough, -⟩
        exact Nat.le_trans enough suffix.length_le
      intro enough
      refine ⟨text.drop (text.length - pattern.count one), drop_suffix _ _, ?_, fun _ => ?_⟩
      · rw [length_drop]
        omega
      · rw [length_drop]
        omega
    · cases text with
      | nil => simp [not_matches_cons_nil]
      | cons a text =>
        rw [matches_cons_cons (by simp), ih tail]
        simp [Takes]

end Token

end E6irc.Base
