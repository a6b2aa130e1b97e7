import E6irc.Base.Bytes

/-!
# Cutting text

`floor_char_boundary` and `truncate_on_char_boundary` of
`e6irc-proto/src/message.rs`, over UTF-8 bytes.
-/

namespace E6irc

open Base List Option Nat

/-- A byte that continues a character. -/
def isContinuation (b : UInt8) : Bool :=
  0x80 ≤ b && b < 0xC0

def isCharBoundary (text : Bytes) (i : ℕ) : Bool :=
  (text[i]?).all fun b => !isContinuation b

/-- The boundary at or before `index`, walking down. -/
def floorCharBoundary (text : Bytes) : ℕ → ℕ
  | 0 => 0
  | index + 1 =>
    if text.length ≤ index + 1 then text.length
    else if isCharBoundary text (index + 1) then index + 1
    else floorCharBoundary text index

def truncateOnCharBoundary (text : Bytes) (maxBytes : ℕ) : Bytes :=
  text.take (floorCharBoundary text maxBytes)

theorem floorCharBoundary_le (text : Bytes) (index : ℕ) : floorCharBoundary text index ≤ index := by
  induction index with
  | zero => exact le_rfl
  | succ index ih =>
    unfold floorCharBoundary
    split
    · assumption
    · split
      · exact le_rfl
      · exact ih.trans (le_succ index)

theorem floorCharBoundary_le_length (text : Bytes) (index : ℕ) :
    floorCharBoundary text index ≤ text.length := by
  induction index with
  | zero => exact zero_le _
  | succ index ih =>
    rw [floorCharBoundary]
    split
    · exact le_rfl
    split
    · omega
    · exact ih

attribute [local simp] isCharBoundary

theorem boundary_floorCharBoundary (text : Bytes) (index : ℕ) :
    floorCharBoundary text index = 0 ∨
      isCharBoundary text (floorCharBoundary text index) = true := by
  induction index with
  | zero => exact .inl rfl
  | succ index ih =>
    rw [floorCharBoundary]
    split
    · right
      simp
    split
    · rename_i boundary
      exact .inr boundary
    · exact ih

theorem length_truncateOnCharBoundary (text : Bytes) (maxBytes : ℕ) :
    (truncateOnCharBoundary text maxBytes).length ≤ maxBytes :=
  (length_take_le _ _).trans (floorCharBoundary_le text maxBytes)

theorem truncateOnCharBoundary_cuts (text : Bytes) (maxBytes : ℕ) :
    truncateOnCharBoundary text maxBytes <+: text :=
  take_prefix _ _

variable {text : Bytes} {maxBytes i : ℕ} {needed : List (UInt8 × UInt8)}

/-- No boundary at or before `index` is passed over. -/
theorem le_floorCharBoundary {index : ℕ} (before : i ≤ index)
    (inside : i ≤ text.length) (boundary : isCharBoundary text i = true) :
    i ≤ floorCharBoundary text index := by
  induction index with
  | zero => exact before
  | succ index ih =>
    unfold floorCharBoundary
    split
    · exact inside
    split
    · exact before
    rename_i no_boundary
    rcases lt_or_ge index i with last | earlier
    · rw [show index + 1 = i by omega] at no_boundary
      exact absurd boundary no_boundary
    · exact ih earlier

/-- Bytes that start characters are cut at the byte. -/
theorem truncateOnCharBoundary_append {more : Bytes}
    (starts : ∀ b ∈ more, isContinuation b = false) (fits : text.length ≤ maxBytes) :
    truncateOnCharBoundary (text ++ more) maxBytes = text ++ more.take (maxBytes - text.length) := by
  have at_end : ∀ i, text.length ≤ i → isCharBoundary (text ++ more) i = true := by
    intro i after
    rw [isCharBoundary, List.getElem?_append_right after, Option.all_eq_true]
    intro b here
    simp [starts b (List.mem_of_getElem? here)]
  have reached : min maxBytes (text ++ more).length ≤ floorCharBoundary (text ++ more) maxBytes := by
    refine le_floorCharBoundary (min_le_left _ _) (min_le_right _ _) (at_end _ ?_)
    simp only [length_append]
    omega
  have bounded := floorCharBoundary_le (text ++ more) maxBytes
  have cut : (text ++ more).take (floorCharBoundary (text ++ more) maxBytes) =
      (text ++ more).take maxBytes := by
    rcases lt_or_ge maxBytes (text ++ more).length with long | short
    · rw [min_eq_left long.le] at reached
      rw [le_antisymm bounded reached]
    · rw [min_eq_right short] at reached
      rw [take_of_length_le reached, take_of_length_le short]
  rw [truncateOnCharBoundary, cut, take_append, take_of_length_le fits]

/-- A text that fits is not cut. -/
theorem truncateOnCharBoundary_eq_self
    (fits : text.length ≤ maxBytes) : truncateOnCharBoundary text maxBytes = text := by
  have whole := truncateOnCharBoundary_append (show ∀ b ∈ [], isContinuation b = false by simp) fits
  simpa using whole

/-- A text goes on at a boundary once the character it is in has ended. -/
theorem boundary_of_needed (read : text.foldlM utf8Step needed = some []) :
    needed.length ≤ text.length ∧ isCharBoundary text needed.length = true := by
  induction needed generalizing text with
  | nil =>
    have unread : ∀ b, isContinuation b = true → utf8Follow b = none := by decide +kernel
    refine ⟨zero_le _, ?_⟩
    cases text with
    | nil => rfl
    | cons b rest =>
      cases continues : isContinuation b with
      | false => simp [continues]
      | true => simp [utf8Step, unread b continues] at read
  | cons range needed ih =>
    cases text with
    | nil => cases read
    | cons b rest =>
      rw [foldlM_cons] at read
      obtain ⟨left, step, read⟩ := bind_eq_some_iff.mp read
      have taken : left = needed := by
        simp only [utf8Step, ite_none_right_eq_some] at step
        exact (Option.some.inj step.2).symm
      obtain ⟨inside, boundary⟩ := ih (taken ▸ read)
      exact ⟨succ_le_succ inside, by simpa using boundary⟩

/-- The first character of a text has at most four bytes. -/
theorem exists_charBoundary (valid : isUtf8 text = true) (some_text : text ≠ []) :
    ∃ i, 1 ≤ i ∧ i ≤ 4 ∧ i ≤ text.length ∧ isCharBoundary text i = true := by
  have few : ∀ b, ((utf8Follow b).all fun needed => decide (needed.length ≤ 3)) = true := by
    decide +kernel
  cases text with
  | nil => exact absurd rfl some_text
  | cons b rest =>
    have read : (b :: rest).foldlM utf8Step [] = some [] := of_decide_eq_true valid
    rw [foldlM_cons] at read
    obtain ⟨needed, step, read⟩ := bind_eq_some_iff.mp read
    obtain ⟨inside, boundary⟩ := boundary_of_needed read
    have short : needed.length ≤ 3 := of_decide_eq_true (all_eq_true _ _ |>.mp (few b) _ step)
    exact ⟨needed.length + 1, by omega, by omega, succ_le_succ inside,
      by simpa using boundary⟩

/-! ## Cuts of valid text -/

/-- Only bytes that continue a character are awaited. -/
def Continues (needed : List (UInt8 × UInt8)) : Prop :=
  ∀ range ∈ needed, ∀ b, range.1 ≤ b → b ≤ range.2 → isContinuation b = true

theorem continues_step {needed' : List (UInt8 × UInt8)} {b : UInt8}
    (continues : Continues needed) (step : utf8Step needed b = some needed') :
    Continues needed' := by
  have follow : ∀ b, ((utf8Follow b).all fun needed => needed.all fun range =>
      decide (0x80 ≤ range.1 ∧ range.2 ≤ 0xBF)) = true := by
    decide +kernel
  have among : ∀ low high b : UInt8, 0x80 ≤ low → high ≤ 0xBF → low ≤ b → b ≤ high →
      isContinuation b = true := by
    intro low high b above below after before
    simp only [isContinuation, Bool.and_eq_true, decide_eq_true_eq, UInt8.le_iff_toNat_le,
      UInt8.lt_iff_toNat_lt] at *
    simp only [UInt8.toNat_ofNat] at *
    omega
  cases needed with
  | nil =>
    intro range isRange b' after before
    have ranges := all_eq_true _ _ |>.mp (follow b) needed' step
    have within := of_decide_eq_true (all_eq_true.mp ranges range isRange)
    exact among range.1 range.2 b' within.1 within.2 after before
  | cons first needed =>
    simp only [utf8Step, ite_none_right_eq_some] at step
    cases step.2
    exact fun range isRange => continues range (mem_cons_of_mem _ isRange)

theorem utf8_cut (continues : Continues needed) (read : text.foldlM utf8Step needed = some [])
    (inside : i ≤ text.length) (boundary : isCharBoundary text i = true) :
    (text.take i).foldlM utf8Step needed = some [] ∧
      (text.drop i).foldlM utf8Step [] = some [] := by
  induction i generalizing text needed with
  | zero =>
    -- A character that is awaited here would go on at the boundary.
    have ended : needed = [] := by
      cases needed with
      | nil => rfl
      | cons range needed =>
        cases text with
        | nil => cases read
        | cons b rest =>
          rw [foldlM_cons] at read
          obtain ⟨left, step, _⟩ := bind_eq_some_iff.mp read
          simp only [utf8Step, ite_none_right_eq_some] at step
          have goesOn := continues range mem_cons_self b step.1.1 step.1.2
          simp [goesOn] at boundary
    subst ended
    exact ⟨rfl, read⟩
  | succ i ih =>
    cases text with
    | nil => cases inside
    | cons b rest =>
      rw [foldlM_cons] at read
      obtain ⟨left, step, read⟩ := bind_eq_some_iff.mp read
      obtain ⟨front, back⟩ := ih (continues_step continues step) read
        (le_of_succ_le_succ inside) (by simpa using boundary)
      refine ⟨?_, back⟩
      rw [take_succ_cons, foldlM_cons, step]
      exact front

/-- Valid text is cut into valid parts at a character boundary. -/
theorem isUtf8_cut (valid : isUtf8 text = true) (inside : i ≤ text.length)
    (boundary : isCharBoundary text i = true) :
    isUtf8 (text.take i) = true ∧ isUtf8 (text.drop i) = true := by
  have nothing : Continues [] := nofun
  obtain ⟨front, back⟩ := utf8_cut nothing (of_decide_eq_true valid) inside boundary
  exact ⟨decide_eq_true front, decide_eq_true back⟩

theorem isUtf8_truncateOnCharBoundary (valid : isUtf8 text = true) (maxBytes : ℕ) :
    isUtf8 (truncateOnCharBoundary text maxBytes) = true := by
  rw [truncateOnCharBoundary]
  rcases boundary_floorCharBoundary text maxBytes with zero | boundary
  · rw [zero]
    rfl
  · exact (isUtf8_cut valid (floorCharBoundary_le_length _ _) boundary).1

/-- A cut that leaves room for the first character is not empty. -/
theorem truncateOnCharBoundary_ne_nil (valid : isUtf8 text = true)
    (some_text : text ≠ []) (room : 4 ≤ maxBytes) : truncateOnCharBoundary text maxBytes ≠ [] := by
  obtain ⟨i, some_byte, short, inside, boundary⟩ := exists_charBoundary valid some_text
  have reached := le_floorCharBoundary (short.trans room) inside boundary
  rw [truncateOnCharBoundary, Ne, take_eq_nil_iff, not_or]
  exact ⟨by omega, some_text⟩

/-- There is a boundary at most three bytes before any place. -/
theorem exists_boundary_near (valid : isUtf8 text = true) {place : ℕ}
    (inside : place ≤ text.length) :
    ∃ i, i ≤ place ∧ place ≤ i + 3 ∧ isCharBoundary text i = true := by
  induction size : text.length using Nat.strong_induction_on generalizing text place with
  | _ n ih =>
    rcases eq_or_ne text [] with rfl | some_text
    · exact ⟨0, zero_le _, by simp at inside; omega, rfl⟩
    obtain ⟨first, some_byte, short, within, boundary⟩ := exists_charBoundary valid some_text
    rcases lt_or_ge place first with inFirst | beyond
    · have start := (boundary_of_needed (of_decide_eq_true valid)).2
      exact ⟨0, zero_le _, by omega, start⟩
    have inRest : place - first ≤ (text.drop first).length := by
      rw [length_drop]
      omega
    obtain ⟨i, before, near, found⟩ := ih (text.drop first).length
      (by rw [length_drop]; omega) (isUtf8_cut valid within boundary).2 inRest rfl
    refine ⟨first + i, by omega, by omega, ?_⟩
    rwa [isCharBoundary, List.getElem?_drop] at found

/-- A cut takes at most three bytes more than it must. -/
theorem le_length_truncateOnCharBoundary (valid : isUtf8 text = true)
    (inside : maxBytes ≤ text.length) :
    maxBytes ≤ (truncateOnCharBoundary text maxBytes).length + 3 := by
  obtain ⟨i, before, near, boundary⟩ := exists_boundary_near valid inside
  have reached := le_floorCharBoundary before (before.trans inside) boundary
  have within := floorCharBoundary_le_length text maxBytes
  rw [truncateOnCharBoundary, length_take_of_le within]
  omega

/-- The first character, with the bytes that continue it. -/
def firstChar (text : Bytes) : Bytes :=
  text.take 1 ++ (text.drop 1).takeWhile isContinuation

/-- The characters of a text, each as its bytes. -/
def chars (text : Bytes) : List Bytes :=
  text.splitBy fun _ next => isContinuation next

/-- The longest realname that is kept. -/
def realLen : ℕ := 150

/-- Text that holds a control character: U+0000–U+001F or U+007F–U+009F. -/
def hasControl : Bytes → Bool
  | [] => false
  | b :: rest =>
    b < 0x20 || b == 0x7F ||
      (b == 0xC2 && (rest.head?).any fun next => 0x80 ≤ next && next < 0xA0) || hasControl rest

end E6irc
