import Mathlib

/-!
# Vectors

`swapRemove` takes an element out of a vector by putting the last one in its
place, and `lastMax` finds the last of the greatest elements.
-/

namespace E6irc.Base

variable {α : Type}

/-- The last element in the place of the one at `i`. -/
def swapRemove (l : List α) (i : ℕ) : List α :=
  match l.getLast? with
  | none => []
  | some last => (l.set i last).dropLast

theorem swapRemove_perm {l : List α} {i : ℕ} {a : α} (held : l[i]? = some a) :
    (a :: swapRemove l i).Perm l := by
  obtain ⟨inside, rfl⟩ := List.getElem?_eq_some_iff.mp held
  rcases List.eq_nil_or_concat' l with rfl | ⟨front, last, rfl⟩
  · cases inside
  rw [List.length_append, List.length_singleton] at inside
  rcases Nat.lt_succ_iff_lt_or_eq.mp inside with before | rfl
  · have rest : swapRemove (front ++ [last]) i = front.set i last := by
      simp [swapRemove, before]
    rw [rest, List.getElem_append_left before]
    calc (front[i] :: front.set i last).Perm (front[i] :: last :: front.eraseIdx i) :=
          (List.set_perm_cons_eraseIdx before last).cons _
      _ |>.Perm (last :: front[i] :: front.eraseIdx i) := List.Perm.swap _ _ _
      _ |>.Perm (last :: front) := (List.getElem_cons_eraseIdx_perm before).cons _
      _ |>.Perm (front ++ [last]) := (List.perm_append_singleton last front).symm
  · have rest : swapRemove (front ++ [last]) front.length = front := by
      simp [swapRemove]
    rw [rest, List.getElem_concat_length rfl]
    exact (List.perm_append_singleton last front).symm

variable {f : α → ℕ}

/-- The last of the elements with the greatest `f`, and where it stands. -/
def lastMax (f : α → ℕ) : List α → Option (ℕ × α)
  | [] => none
  | a :: rest =>
    match lastMax f rest with
    | none => some (0, a)
    | some (i, b) => if f a ≤ f b then some (i + 1, b) else some (0, a)

theorem lastMax_eq_none {l : List α} : lastMax f l = none ↔ l = [] := by
  cases l with
  | nil => simp [lastMax]
  | cons a rest =>
    rw [lastMax]
    split
    · simp
    · split <;> simp

theorem lastMax_spec {l : List α} {i : ℕ} {b : α} (found : lastMax f l = some (i, b)) :
    l[i]? = some b ∧ ∀ a ∈ l, f a ≤ f b := by
  induction l generalizing i b with
  | nil => cases found
  | cons a rest ih =>
    rw [lastMax] at found
    cases later : lastMax f rest with
    | none =>
      rw [later] at found
      cases found
      obtain rfl := lastMax_eq_none.mp later
      exact ⟨rfl, by simp⟩
    | some best =>
      obtain ⟨j, c⟩ := best
      obtain ⟨stands, greatest⟩ := ih later
      rw [later] at found
      dsimp only at found
      split at found
      · rename_i below
        cases found
        exact ⟨stands, List.forall_mem_cons.mpr ⟨below, greatest⟩⟩
      · rename_i above
        cases found
        have most : f c ≤ f a := Nat.le_of_not_le above
        exact ⟨rfl, List.forall_mem_cons.mpr
          ⟨Nat.le_refl _, fun other among => Nat.le_trans (greatest other among) most⟩⟩

end E6irc.Base
