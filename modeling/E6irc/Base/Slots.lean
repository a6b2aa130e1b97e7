import Mathlib

/-!
# Lists changed in one place

What a list of records is worth as a whole after one of them is replaced: a
relation to a parallel list, the concatenation of its pieces, and a sum.  Also
where a list that has grown at its end can be split.
-/

namespace E6irc.Base

open List

variable {α β : Type} {as : List α} {a : α} {i n : ℕ} {R : α → β → Prop} {bs : List β}

theorem forall₂_set {b : β} (related : List.Forall₂ R as bs) (here : R a b) (i : ℕ) :
    List.Forall₂ R (as.set i a) (bs.set i b) := by
  induction related generalizing i with
  | nil => exact .nil
  | cons head tail ih =>
    cases i with
    | zero => exact .cons here tail
    | succ i => exact .cons head (ih i)

theorem forall₂_getElem?
    (related : List.Forall₂ R as bs) (here : as[i]? = some a) : ∃ b, bs[i]? = some b ∧ R a b := by
  induction related generalizing i with
  | nil => simp at here
  | @cons x y _ _ head tail ih =>
    cases i with
    | zero =>
      obtain rfl : x = a := by simpa using here
      exact ⟨y, by simp, head⟩
    | succ i => simpa using ih (by simpa using here)

/-- What stands in a list after a replacement is the new entry, or stood there before. -/
theorem getElem?_set_cases {b : α} {m : ℕ} (found : (as.set n a)[m]? = some b) :
    (m = n ∧ b = a) ∨ (m ≠ n ∧ as[m]? = some b) := by
  rw [List.getElem?_set] at found
  split at found
  · rename_i same
    rw [Option.ite_none_right_eq_some] at found
    exact .inl ⟨same.symm, (Option.some.inj found.2).symm⟩
  · rename_i apart
    exact .inr ⟨Ne.symm apart, found⟩

/-- Lengthening one piece lengthens the whole. -/
theorem flatten_set_append {pieces : List (List α)} {piece more : List α}
    (here : pieces[i]? = some piece) :
    (pieces.set i (piece ++ more)).flatten.Perm (pieces.flatten ++ more) := by
  induction pieces generalizing i with
  | nil => simp at here
  | cons first rest ih =>
    cases i with
    | zero =>
      obtain rfl : first = piece := by simpa using here
      simp only [set_cons_zero, flatten_cons, append_assoc]
      exact perm_append_comm.append_left first
    | succ i =>
      simp only [set_cons_succ, flatten_cons, append_assoc]
      exact (ih (by simpa using here)).append_left first

theorem sum_map_set {f : α → ℕ} {a' : α} (here : as[i]? = some a)
    (drop : f a = f a' + n) : (as.map f).sum = ((as.set i a').map f).sum + n := by
  induction as generalizing i with
  | nil => simp at here
  | cons first rest ih =>
    cases i with
    | zero =>
      obtain rfl : first = a := by simpa using here
      simp only [set_cons_zero, map_cons, sum_cons]
      omega
    | succ i =>
      have tail := ih (i := i) (by simpa using here)
      simp only [set_cons_succ, map_cons, sum_cons]
      omega

/-- A list that grew at its end is split before its last element, or at it. -/
theorem snoc_eq_split {before after : List α} {x : α} : as ++ [a] = before ++ x :: after ↔
      (as = before ∧ a = x ∧ after = []) ∨
        ∃ between, after = between ++ [a] ∧ as = before ++ x :: between := by
  constructor
  · intro same
    rcases eq_nil_or_concat after with rfl | ⟨between, last, rfl⟩
    · obtain ⟨front, back⟩ := append_inj' same rfl
      exact .inl ⟨front, by simpa using back, rfl⟩
    rw [concat_eq_append, ← cons_append, ← append_assoc] at same
    obtain ⟨front, back⟩ := append_inj' same rfl
    obtain rfl : a = last := by simpa using back
    exact .inr ⟨between, concat_eq_append, front⟩
  · rintro (⟨rfl, rfl, rfl⟩ | ⟨between, rfl, rfl⟩)
    · rfl
    · simp

/-- Distinct indices, exactly those of the elements that satisfy `p`. -/
theorem length_eq_countP {p : α → Bool} {indices : List ℕ} (nodup : indices.Nodup)
    (exact_ : ∀ i, i ∈ indices ↔ ∃ a, as[i]? = some a ∧ p a = true) :
    indices.length = as.countP p := by
  have found : (as.zipIdx.filter fun entry => p entry.1).map Prod.snd |>.Nodup := by
    refine List.Nodup.sublist (filter_sublist.map _) ?_
    rw [zipIdx_map_snd]
    exact nodup_range'
  have same : indices.Perm ((as.zipIdx.filter fun entry => p entry.1).map Prod.snd) := by
    refine (perm_ext_iff_of_nodup nodup found).mpr fun i => ?_
    rw [exact_ i]
    simp [mem_zipIdx_iff_getElem?]
  rw [same.length_eq, length_map, ← countP_eq_length_filter]
  conv_rhs => rw [← zipIdx_map_fst 0 as, countP_map]
  rfl

end E6irc.Base
