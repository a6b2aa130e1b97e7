import Mathlib

/-!
# Scanning a text with codes that take arguments

A scan reads a text element by element.  Each element is put out in some form, and may
take a number of those behind it as its argument, which are skipped.  Two scans that
put out the same and differ in how much their codes take agree exactly on the texts
in which all codes take the same (`scan_eq_iff`), provided that what is taken would
otherwise be seen.
-/

namespace E6irc.Base

open List

variable {α β : Type}

/-- `arg c rest` is how much of `rest` the element `c` takes; the first number is how
much is still to skip. -/
def scan (arg : α → List α → ℕ) (emit : α → List β) : ℕ → List α → List β
  | _, [] => []
  | 0, c :: rest => emit c ++ scan arg emit (arg c rest) rest
  | skip + 1, _ :: rest => scan arg emit skip rest

section

variable {arg : α → List α → ℕ} {emit : α → List β}

theorem scan_skip (n : ℕ) (text : List α) : scan arg emit n text = scan arg emit 0 (text.drop n) := by
  induction text generalizing n with
  | nil => cases n <;> rfl
  | cons c rest ih =>
    cases n with
    | zero => rfl
    | succ n => exact ih n

theorem scan_cons (c : α) (rest : List α) : scan arg emit 0 (c :: rest) =
    emit c ++ scan arg emit 0 (rest.drop (arg c rest)) := by
  rw [scan, scan_skip]

/-- Elements that take nothing are put out one by one. -/
theorem scan_plain {front : List α} (plain : ∀ c ∈ front, ∀ rest, arg c rest = 0) (rest : List α) :
    scan arg emit 0 (front ++ rest) = front.flatMap emit ++ scan arg emit 0 rest := by
  induction front with
  | nil => rfl
  | cons c front ih =>
    have later := ih fun d among => plain d (mem_cons_of_mem _ among)
    rw [cons_append, scan_cons, plain c mem_cons_self, drop_zero, later, flatMap_cons, append_assoc]

theorem filter_scan (p : β → Bool) (n : ℕ) (text : List α) :
    (scan arg emit n text).filter p = scan arg (fun c => (emit c).filter p) n text := by
  induction text generalizing n with
  | nil => rfl
  | cons c rest ih =>
    cases n with
    | zero => rw [scan, scan, filter_append, ih]
    | succ n => exact ih n

end

/-- Codes take at least what they take elsewhere, and only what takes nothing and is
seen. -/
structure TakesMore (arg less : α → List α → ℕ) (emit : α → List β) : Prop where
  least : ∀ c rest, less c rest ≤ arg c rest
  within : ∀ (c : α) (rest : List α), arg c rest ≤ rest.length
  plain : ∀ (c : α) (rest : List α), ∀ d ∈ rest.take (arg c rest),
    (∀ more, arg d more = 0) ∧ emit d ≠ []

variable {arg less : α → List α → ℕ} {emit : α → List β}

/-- What one scan skips and the other does not is put out by the other. -/
theorem TakesMore.scan_less (takes : TakesMore arg less emit) (c : α) (rest : List α) :
    scan less emit 0 (rest.drop (less c rest)) =
      ((rest.drop (less c rest)).take (arg c rest - less c rest)).flatMap emit ++
        scan less emit 0 (rest.drop (arg c rest)) := by
  have parts : rest.drop (less c rest) =
      (rest.drop (less c rest)).take (arg c rest - less c rest) ++ rest.drop (arg c rest) := by
    conv_lhs => rw [← take_append_drop (arg c rest - less c rest) (rest.drop (less c rest))]
    rw [drop_drop, Nat.add_sub_of_le (takes.least c rest)]
  conv_lhs => rw [parts]
  refine scan_plain (fun d among more => ?_) _
  have taken : d ∈ rest.take (arg c rest) := by
    rw [← drop_take] at among
    exact mem_of_mem_drop among
  exact Nat.le_zero.mp ((takes.plain c rest d taken).1 more ▸ takes.least d more)

/-- A text whose codes all take the same is one whose first code does, and whose rest
after the argument does. -/
theorem TakesMore.agree_cons (takes : TakesMore arg less emit) {c : α} {rest : List α} :
    (∀ d more, d :: more <:+ c :: rest → arg d more = less d more) ↔
      arg c rest = less c rest ∧
        ∀ d more, d :: more <:+ rest.drop (arg c rest) → arg d more = less d more := by
  constructor
  · intro agree
    refine ⟨agree c rest (suffix_refl _), fun d more inside => agree d more ?_⟩
    exact (inside.trans (drop_suffix _ _)).trans (suffix_cons _ _)
  · intro ⟨first, later⟩ d more inside
    rcases suffix_cons_iff.mp inside with whole | inside
    · obtain ⟨rfl, rfl⟩ := List.cons.inj whole
      exact first
    rw [← take_append_drop (arg c rest) rest] at inside
    rcases suffix_or_suffix_of_suffix inside (suffix_append _ _) with shorter | longer
    · exact later d more shorter
    -- the code stands in the argument itself, where nothing takes anything
    obtain ⟨front, split⟩ := inside
    rcases eq_or_ne (d :: more) (rest.drop (arg c rest)) with same | apart
    · exact later d more (same ▸ suffix_refl _)
    have among : d ∈ rest.take (arg c rest) := by
      obtain ⟨back, more_eq⟩ := longer
      cases back with
      | nil => exact absurd more_eq.symm apart
      | cons e back =>
        obtain ⟨rfl, rfl⟩ := List.cons.inj more_eq
        have whole : front ++ e :: back = rest.take (arg c rest) := by
          have parts : (front ++ e :: back) ++ rest.drop (arg c rest) =
              rest.take (arg c rest) ++ rest.drop (arg c rest) := by
            simpa using split
          exact append_cancel_right parts
        rw [← whole]
        exact mem_append_right _ mem_cons_self
    have nothing := (takes.plain c rest d among).1 more
    exact nothing.trans (Nat.le_zero.mp (nothing ▸ takes.least d more)).symm

/-- Two scans agree exactly on the texts in which all codes take the same. -/
theorem TakesMore.scan_eq_iff (takes : TakesMore arg less emit) (text : List α) :
    scan arg emit 0 text = scan less emit 0 text ↔
      ∀ c rest, c :: rest <:+ text → arg c rest = less c rest := by
  -- what is taken on top is missing, so the longer output tells the texts apart
  suffices both : (scan arg emit 0 text).length ≤ (scan less emit 0 text).length ∧
      (scan arg emit 0 text = scan less emit 0 text ↔
        ∀ c rest, c :: rest <:+ text → arg c rest = less c rest) from both.2
  induction size : text.length using Nat.strong_induction_on generalizing text with | _ n ih
  cases text with
  | nil => exact ⟨le_rfl, iff_of_true rfl fun c rest inside => by simp at inside⟩
  | cons c rest =>
    have shorter : (rest.drop (arg c rest)).length < n := by
      rw [← size, length_drop, length_cons]
      omega
    obtain ⟨atMost, agree⟩ := ih _ shorter _ rfl
    rw [scan_cons, scan_cons, takes.scan_less c rest, takes.agree_cons, append_cancel_left_eq]
    rcases (takes.least c rest).eq_or_lt with same | taken
    · rw [same, Nat.sub_self, take_zero, flatMap_nil, nil_append]
      refine ⟨?_, agree.trans (and_iff_right rfl).symm⟩
      simpa using atMost
    · have missing : 0 < (((rest.drop (less c rest)).take
          (arg c rest - less c rest)).flatMap emit).length := by
        have within := takes.within c rest
        have some_taken : (rest.drop (less c rest)).take (arg c rest - less c rest) ≠ [] := by
          rw [← length_pos_iff, length_take, length_drop]
          omega
        obtain ⟨d, among⟩ := exists_mem_of_ne_nil _ some_taken
        have seen : d ∈ rest.take (arg c rest) := by
          rw [← drop_take] at among
          exact mem_of_mem_drop among
        obtain ⟨shown, isShown⟩ := exists_mem_of_ne_nil _ (takes.plain c rest d seen).2
        exact length_pos_of_mem (mem_flatMap.mpr ⟨d, among, isShown⟩)
      refine ⟨?_, iff_of_false (fun same => ?_) fun agrees => taken.ne' agrees.1⟩
      · simp only [length_append]
        omega
      · have lengths := congrArg List.length same
        simp only [length_append] at lengths
        omega

end E6irc.Base
