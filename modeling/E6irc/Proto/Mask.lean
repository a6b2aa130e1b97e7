import E6irc.Base.Glob
import E6irc.Proto.Casemap

/-!
# Hostmask matching

`matches` of `e6irc-proto/src/mask.rs`: `*` takes any run and `?` any one byte,
compared under the case mapping.  The matcher keeps the last `*` it has passed
and starts again one byte further when it gets stuck.
-/

namespace E6irc.Mask

open Base Token

/-- What a byte of a mask stands for. -/
def token (b : UInt8) : Token UInt8 :=
  if b = byte '*' then any else if b = byte '?' then one else lit b

/-- Iterative wildcard match with backtracking over the last `*`.  `star` is the
pattern behind that `*` and the text it was last tried on. -/
def globLoop : ℕ → Bytes → Bytes → Option (Bytes × Bytes) → Bool
  | 0, _, _, _ => false
  | _ + 1, pattern, [], _ => (pattern.dropWhile (· == byte '*')).isEmpty
  | fuel + 1, pattern, b :: text, star =>
    let retry := star.elim false fun (behind, tried) =>
      globLoop fuel behind tried.tail (some (behind, tried.tail))
    match pattern with
    | [] => retry
    | c :: rest =>
      if c = byte '*' then globLoop fuel rest (b :: text) (some (rest, b :: text))
      else if c = byte '?' ∨ c = b then globLoop fuel rest text star
      else retry

/-- Every restart shortens the text the last `*` is tried on, and between two of
them each round shortens the text or the pattern. -/
def fuelFor (pattern text : Bytes) : ℕ :=
  (text.length + 2) * (pattern.length + text.length + 2)

def glob (pattern text : Bytes) : Bool :=
  globLoop (fuelFor pattern text) pattern text none

/-- The same loop, with no answer where it has not ended within `fuel` rounds. -/
def globRounds : ℕ → Bytes → Bytes → Option (Bytes × Bytes) → Option Bool
  | 0, _, _, _ => none
  | _ + 1, pattern, [], _ => some (pattern.dropWhile (· == byte '*')).isEmpty
  | fuel + 1, pattern, b :: text, star =>
    let retry := star.elim (some false) fun (behind, tried) =>
      globRounds fuel behind tried.tail (some (behind, tried.tail))
    match pattern with
    | [] => retry
    | c :: rest =>
      if c = byte '*' then globRounds fuel rest (b :: text) (some (rest, b :: text))
      else if c = byte '?' ∨ c = b then globRounds fuel rest text star
      else retry

theorem globLoop_eq_getD (fuel : ℕ) (pattern text : Bytes) (star : Option (Bytes × Bytes)) :
    globLoop fuel pattern text star = (globRounds fuel pattern text star).getD false := by
  induction fuel generalizing pattern text star with
  | zero => rfl
  | succ fuel ih =>
    cases text with
    | nil => rfl
    | cons b text =>
      have retry : (star.elim false fun (behind, tried) =>
          globLoop fuel behind tried.tail (some (behind, tried.tail))) =
          (star.elim (some false) fun (behind, tried) =>
            globRounds fuel behind tried.tail (some (behind, tried.tail))).getD false := by
        cases star with
        | none => rfl
        | some last => exact ih _ _ _
      cases pattern with
      | nil => exact retry
      | cons c rest =>
        simp only [globLoop, globRounds]
        split
        · exact ih _ _ _
        · split
          · exact ih _ _ _
          · exact retry

/-! ## The matcher decides the match -/

/-- The state of a search for a match of `whole` in `all`: so far the tokens
behind the last `*` fit what was read since it was last moved. -/
inductive Searching (whole : List (Token UInt8)) (all : Bytes) :
    Bytes → Bytes → Option (Bytes × Bytes) → Prop
  | start {pattern text : Bytes} :
      (Matches whole all ↔ Matches (pattern.map token) text) → Searching whole all pattern text none
  | star {behind tried pattern text : Bytes} (passed : List UInt8) (read : Bytes) :
      (Matches whole all ↔ ∃ s, s <:+ tried ∧ Matches (behind.map token) s) →
      behind = passed ++ pattern → tried = read ++ text → Fits (passed.map token) read →
      Searching whole all pattern text (some (behind, tried))

section

variable {whole : List (Token UInt8)} {all pattern text tried behind : Bytes} {b c : UInt8}
  {star : Option (Bytes × Bytes)}

theorem token_eq_any : token b = any ↔ b = byte '*' := by
  unfold token
  split
  · rename_i star
    exact iff_of_true rfl star
  · rename_i other
    split <;> exact iff_of_false nofun other

theorem token_star : token (byte '*') = any := token_eq_any.mpr rfl

/-- A byte that is no `*` takes the text's byte exactly when the loop goes on. -/
theorem token_takes (single : c ≠ byte '*') : (token c).Takes [b] ↔ c = byte '?' ∨ c = b := by
  unfold token
  rw [if_neg single]
  split
  · rename_i question
    simp [Takes, question]
  · rename_i literal
    simp [Takes, literal, eq_comm]

/-- The end of the text: only stars may be left. -/
theorem Searching.finish (searching : Searching whole all pattern [] star) :
    (pattern.dropWhile (· == byte '*')).isEmpty = true ↔ Matches whole all := by
  have stars : (pattern.dropWhile (· == byte '*')).isEmpty = true ↔
      Matches (pattern.map token) ([] : Bytes) := by
    rw [matches_empty, List.isEmpty_iff, List.dropWhile_eq_nil_iff]
    simp [token_eq_any]
  rw [stars]
  cases searching with
  | start goal => exact goal.symm
  | star passed read goal split_pattern split_text fits =>
    rw [goal, split_text, split_pattern, List.map_append]
    constructor
    · intro left
      exact ⟨_, List.suffix_refl _, fits.matches_append_iff.mpr left⟩
    rintro ⟨s, suffix, found⟩
    obtain ⟨front, rest, rfl, fixed, left⟩ := matches_append.mp found
    have consumed : front.length = read.length :=
      (length_of_matches fits.single fixed).trans fits.length_eq
    have nothing : rest = [] := by
      have total := suffix.length_le
      simp only [List.append_nil, List.length_append] at total
      exact List.eq_nil_of_length_eq_zero (by omega)
    exact nothing ▸ left

/-- A `*` is reached: what is behind it may match from here on. -/
theorem Searching.pass_star (searching : Searching whole all (byte '*' :: pattern) text star) :
    Searching whole all pattern text (some (pattern, text)) := by
  refine .star [] [] ?_ rfl rfl .nil
  cases searching with
  | start goal =>
    rw [goal, List.map_cons, token_star]
    exact matches_any_cons
  | star passed read goal split_pattern split_text fits =>
    rw [goal, split_text, split_pattern, List.map_append, List.map_cons, token_star]
    exact matches_suffix_fits fits

/-- A byte of the mask takes a byte of the text. -/
theorem Searching.advance (searching : Searching whole all (c :: pattern) (b :: text) star)
    (single : c ≠ byte '*') (takes : (token c).Takes [b]) :
    Searching whole all pattern text star := by
  have other : token c ≠ any := fun any => single (token_eq_any.mp any)
  cases searching with
  | start goal =>
    refine .start (goal.trans ?_)
    rw [List.map_cons, matches_cons_cons other]
    exact and_iff_right takes
  | star passed read goal split_pattern split_text fits =>
    refine .star (passed ++ [c]) (read ++ [b]) goal ?_ ?_ ?_
    · rw [split_pattern, List.append_assoc]
      rfl
    · rw [split_text, List.append_assoc]
      rfl
    · rw [List.map_append]
      exact fits.snoc other takes

/-- The search is stuck before any `*`. -/
theorem Searching.fail (searching : Searching whole all pattern text none)
    (stuck : ¬ Matches (pattern.map token) text) : ¬ Matches whole all := by
  cases searching with
  | start goal => exact fun found => stuck (goal.mp found)

/-- The search is stuck behind a `*`, which is tried one byte further. -/
theorem Searching.retry (searching : Searching whole all pattern (b :: text) (some (behind, tried)))
    (stuck : ¬ Matches (pattern.map token) (b :: text)) :
    tried ≠ [] ∧ Searching whole all behind tried.tail (some (behind, tried.tail)) := by
  cases searching with
  | star passed read goal split_pattern split_text fits =>
    have here : ¬ Matches (behind.map token) tried := by
      rw [split_pattern, split_text, List.map_append, fits.matches_append_iff]
      exact stuck
    cases tried with
    | nil => simp at split_text
    | cons first rest =>
      refine ⟨List.cons_ne_nil _ _, .star [] [] (goal.trans ?_) rfl rfl .nil⟩
      constructor
      · intro ⟨s, suffix, found⟩
        rcases List.suffix_cons_iff.mp suffix with whole | later
        · exact absurd (whole ▸ found) here
        · exact ⟨s, later, found⟩
      · intro ⟨s, suffix, found⟩
        exact ⟨s, suffix.trans (List.suffix_cons _ _), found⟩

/-- How much text the last `*`, or the first one to come, can be tried on. -/
def rank (text : Bytes) : Option (Bytes × Bytes) → ℕ
  | none => text.length + 1
  | some (_, tried) => tried.length

theorem rank_tail (b : UInt8) (text : Bytes) (star : Option (Bytes × Bytes)) :
    rank text star ≤ rank (b :: text) star := by
  cases star with
  | none => simp [rank]
  | some last => exact le_rfl

theorem Searching.rank_pass_star (searching : Searching whole all pattern text star)
    (behind : Bytes) : rank text (some (behind, text)) ≤ rank text star := by
  cases searching with
  | start goal => simp [rank]
  | star passed read goal split_pattern split_text fits => simp [rank, split_text]

/-- With fuel enough the loop ends and finds out whether the whole mask matches. -/
theorem globRounds_eq_some {fuel : ℕ} (size : ℕ)
    (searching : Searching whole all pattern text star)
    (within : pattern.length + text.length ≤ size)
    (starWithin : ∀ behind tried, star = some (behind, tried) → behind.length + tried.length ≤ size)
    (enough : rank text star * (size + 1) + pattern.length + text.length < fuel) :
    ∃ found, globRounds fuel pattern text star = some found ∧ (found = true ↔ Matches whole all) := by
  induction fuel generalizing pattern text star with
  | zero => omega
  | succ fuel ih =>
    cases text with
    | nil => exact ⟨_, rfl, searching.finish⟩
    | cons b text =>
      have retried (stuck : ¬ Matches (pattern.map token) (b :: text)) :
          ∃ found, (star.elim (some false) fun (behind, tried) =>
            globRounds fuel behind tried.tail (some (behind, tried.tail))) = some found ∧
            (found = true ↔ Matches whole all) := by
        cases star with
        | none => exact ⟨false, rfl, iff_of_false nofun (searching.fail stuck)⟩
        | some last =>
          obtain ⟨behind, tried⟩ := last
          obtain ⟨more, next⟩ := searching.retry stuck
          have kept := starWithin behind tried rfl
          cases tried with
          | nil => exact absurd rfl more
          | cons first rest =>
            simp only [rank, List.length_cons, Nat.succ_mul] at enough kept
            refine ih next ?_ (fun _ _ same => ?_) ?_
            · simp only [List.tail_cons]
              omega
            · cases same
              simp only [List.tail_cons]
              omega
            · simp only [rank, List.tail_cons]
              omega
      cases pattern with
      | nil => exact retried (by simp)
      | cons c rest =>
        simp only [globRounds]
        simp only [List.length_cons] at within enough
        split
        · rename_i isStar
          subst isStar
          refine ih searching.pass_star ?_ (fun _ _ same => ?_) ?_
          · simp only [List.length_cons]
            omega
          · cases same
            simp only [List.length_cons]
            omega
          · have scaled := Nat.mul_le_mul_right (size + 1) (searching.rank_pass_star rest)
            simp only [List.length_cons]
            omega
        · rename_i single
          split
          · rename_i takes
            refine ih (searching.advance single ((token_takes single).mpr takes)) (by omega)
              starWithin ?_
            have scaled := Nat.mul_le_mul_right (size + 1) (rank_tail b text star)
            omega
          · rename_i differs
            refine retried fun found => differs ?_
            have other : token c ≠ any := fun any => single (token_eq_any.mp any)
            rw [List.map_cons, matches_cons_cons other] at found
            exact (token_takes single).mp found.1

end

/-- The matcher ends, and accepts exactly what the tokens of the mask match. -/
theorem globRounds_fuelFor (pattern text : Bytes) :
    globRounds (fuelFor pattern text) pattern text none = some (glob pattern text) ∧
      (glob pattern text = true ↔ Matches (pattern.map token) text) := by
  have product : (text.length + 2) * (pattern.length + text.length + 2) =
      (text.length + 1) * (pattern.length + text.length + 1) + pattern.length + text.length +
        (text.length + 3) := by ring
  have ends : ∃ found, globRounds (fuelFor pattern text) pattern text none = some found ∧
      (found = true ↔ Matches (pattern.map token) text) := by
    refine globRounds_eq_some (pattern.length + text.length) (.start Iff.rfl) le_rfl nofun ?_
    simp only [rank, fuelFor]
    omega
  obtain ⟨found, rounds, decides⟩ := ends
  have same : glob pattern text = found := by
    rw [glob, globLoop_eq_getD, rounds]
    rfl
  rw [same]
  exact ⟨rounds, decides⟩

theorem glob_eq_true_iff {pattern text : Bytes} :
    glob pattern text = true ↔ Matches (pattern.map token) text :=
  (globRounds_fuelFor pattern text).2

end E6irc.Mask

namespace E6irc

/-- Does `mask` match `subject`? -/
def Mask.matches (casemap : CaseMapping) (mask subject : Base.Bytes) : Bool :=
  Mask.glob (casemap.casefold mask) (casemap.casefold subject)

namespace Mask

open Base Token

/-- The tokens of a mask, folded. -/
def tokens (casemap : CaseMapping) (mask : Bytes) : List (Token UInt8) :=
  (casemap.casefold mask).map token

variable {casemap : CaseMapping} {mask subject : Bytes} {b : UInt8}

theorem matches_eq_true_iff :
    Mask.matches casemap mask subject = true ↔
      Matches (tokens casemap mask) (casemap.casefold subject) :=
  glob_eq_true_iff

theorem tokens_at (user host : Bytes) :
    tokens casemap (user ++ byte '@' :: host) =
      tokens casemap user ++ lit (byte '@') :: tokens casemap host := by
  have sign : token (casemap.lower (byte '@')) = lit (byte '@') := by cases casemap <;> rfl
  simp [tokens, CaseMapping.casefold, sign]

theorem casefold_at (front back : Bytes) :
    casemap.casefold (front ++ byte '@' :: back) =
      casemap.casefold front ++ byte '@' :: casemap.casefold back := by
  have sign : casemap.lower (byte '@') = byte '@' := CaseMapping.lower_eq_sign (by decide) |>.mpr rfl
  simp [CaseMapping.casefold, sign]

/-- Masks of both sides of an `@` make a mask of the whole. -/
theorem matches_at_of {user host front back : Bytes}
    (before : Mask.matches casemap user front = true)
    (behind : Mask.matches casemap host back = true) :
    Mask.matches casemap (user ++ byte '@' :: host) (front ++ byte '@' :: back) = true := by
  rw [matches_eq_true_iff] at before behind ⊢
  rw [tokens_at, casefold_at]
  exact matches_append.mpr ⟨_, _, rfl, before, matches_cons.mpr ⟨[_], _, rfl, rfl, behind⟩⟩

/-- On a text with one `@` that is the only way to match. -/
theorem matches_at {user host front back : Bytes} (first : byte '@' ∉ front)
    (last : byte '@' ∉ back) :
    Mask.matches casemap (user ++ byte '@' :: host) (front ++ byte '@' :: back) = true ↔
      Mask.matches casemap user front = true ∧ Mask.matches casemap host back = true := by
  have kept {text : Bytes} (absent : byte '@' ∉ text) : byte '@' ∉ casemap.casefold text := by
    simp only [CaseMapping.casefold, List.mem_map, not_exists, not_and]
    intro b mem sign
    exact absent ((CaseMapping.lower_eq_sign (by decide)).mp sign ▸ mem)
  simp only [matches_eq_true_iff, tokens_at, casefold_at]
  exact matches_around (kept first) (kept last)

/-! ## Masks of wildcards, and literals -/

theorem token_lower_eq_any : token (casemap.lower b) = any ↔ b = byte '*' :=
  token_eq_any.trans (CaseMapping.lower_eq_sign (by decide))

theorem token_lower_eq_one : token (casemap.lower b) = one ↔ b = byte '?' := by
  have sign : casemap.lower b = byte '?' ↔ b = byte '?' := CaseMapping.lower_eq_sign (by decide)
  rw [← sign]
  unfold token
  split
  · rename_i star
    rw [star]
    decide
  · split
    · rename_i question
      exact iff_of_true rfl question
    · rename_i other
      exact iff_of_false nofun other

theorem token_lower_eq_lit (noStar : b ≠ byte '*') (noQuestion : b ≠ byte '?') :
    token (casemap.lower b) = lit (casemap.lower b) := by
  unfold token
  rw [if_neg, if_neg]
  · rwa [CaseMapping.lower_eq_sign (by decide)]
  · rwa [CaseMapping.lower_eq_sign (by decide)]

/-- A mask of wildcards only asks for a length. -/
theorem matches_of_wild (wild : ∀ b ∈ mask, b = byte '*' ∨ b = byte '?') :
    Mask.matches casemap mask subject = true ↔
      mask.count (byte '?') ≤ subject.length ∧
        (byte '*' ∉ mask → subject.length = mask.count (byte '?')) := by
  have wildTokens : ∀ tok ∈ tokens casemap mask, tok = any ∨ tok = one := by
    simp only [tokens, CaseMapping.casefold, List.map_map, List.forall_mem_map, Function.comp_apply,
      token_lower_eq_any, token_lower_eq_one]
    exact wild
  have stars : any ∈ tokens casemap mask ↔ byte '*' ∈ mask := by
    simp [tokens, CaseMapping.casefold, token_lower_eq_any]
  have questions : (tokens casemap mask).count one = mask.count (byte '?') := by
    simp only [tokens, CaseMapping.casefold, List.map_map, List.count, List.countP_map]
    congr 1
    funext b
    rw [Function.comp_apply, Bool.eq_iff_iff]
    simp [token_lower_eq_one]
  rw [matches_eq_true_iff, matches_wildcards wildTokens, stars, questions,
    CaseMapping.length_casefold]

/-- A text without a literal of the mask does not match. -/
theorem not_matches_of_literal (literal : b ∈ mask) (noStar : b ≠ byte '*')
    (noQuestion : b ≠ byte '?') (absent : casemap.lower b ∉ casemap.casefold subject) :
    Mask.matches casemap mask subject = false := by
  rw [Bool.eq_false_iff, Ne, matches_eq_true_iff]
  intro whole
  have present : lit (casemap.lower b) ∈ tokens casemap mask := by
    rw [← token_lower_eq_lit noStar noQuestion]
    exact List.mem_map_of_mem (List.mem_map_of_mem literal)
  have enough := count_le_of_matches whole (casemap.lower b)
  rw [List.count_eq_zero_of_not_mem absent] at enough
  exact absurd (List.count_pos_iff.mpr present) (by omega)

/-- A mask without wildcards matches itself alone. -/
theorem matches_of_literals (literals : ∀ b ∈ mask, b ≠ byte '*' ∧ b ≠ byte '?') :
    Mask.matches casemap mask subject = true ↔ casemap.casefold subject = casemap.casefold mask := by
  have plain : tokens casemap mask = (casemap.casefold mask).map lit := by
    simp only [tokens, CaseMapping.casefold, List.map_map]
    exact List.map_congr_left fun b mem =>
      token_lower_eq_lit (literals b mem).1 (literals b mem).2
  rw [matches_eq_true_iff, plain, matches_map_lit]

/-- What a byte of a mask takes of the folded subject. -/
theorem takes_token_lower {part : Bytes} :
    (token (casemap.lower b)).Takes part ↔
      if b = byte '*' then True else if b = byte '?' then part.length = 1
      else part = [casemap.lower b] := by
  split
  · rename_i star
    rw [token_lower_eq_any.mpr star]
    exact Iff.rfl
  · rename_i noStar
    split
    · rename_i question
      rw [token_lower_eq_one.mpr question]
      exact List.length_eq_one_iff.symm
    · rename_i noQuestion
      rw [token_lower_eq_lit noStar noQuestion]
      exact Iff.rfl

/-- A mask matches exactly if the folded subject divides into parts, one for each
byte of the mask: any for a `*`, a single byte for a `?`, and for every other byte
that byte folded.  The loop ends with that answer. -/
theorem mask_matches_iff_divides (casemap : CaseMapping) (mask subject : Bytes) :
    (Mask.matches casemap mask subject = true ↔
      ∃ parts : List Bytes, parts.flatten = casemap.casefold subject ∧
        List.Forall₂ (fun b part => if b = byte '*' then True
          else if b = byte '?' then part.length = 1 else part = [casemap.lower b]) mask parts) ∧
    ∃ rounds, globRounds rounds (casemap.casefold mask) (casemap.casefold subject) none =
      some (Mask.matches casemap mask subject) := by
  refine ⟨?_, _, (globRounds_fuelFor _ _).1⟩
  rw [matches_eq_true_iff, Matches]
  refine exists_congr fun parts => and_comm.trans (and_congr_right fun _ => ?_)
  rw [tokens, CaseMapping.casefold, List.forall₂_map_left_iff, List.forall₂_map_left_iff]
  exact ⟨fun all => all.imp fun _ _ => takes_token_lower.mp,
    fun all => all.imp fun _ _ => takes_token_lower.mpr⟩

end Mask

end E6irc
