import Mathlib

/-!
# Greedy packing

`pack` puts items, in their order, into groups: an item goes to the group being
filled, or starts the next one when that group would no longer fit with it.
Nothing is lost (`flatten_pack`), every group fits if every item does alone
(`fits_of_mem_pack`), and no group could have taken the first item of the next
(`isChain_pack`).
-/

namespace E6irc.Base

open List

variable {α : Type}

/-- The groups of `items`, where `group` is being filled. -/
def pack (fits : List α → Bool) : List α → List α → List (List α)
  | group, [] => if group.isEmpty then [] else [group]
  | group, x :: rest =>
    if group.isEmpty = false ∧ fits (group ++ [x]) = false then group :: pack fits [x] rest
    else pack fits (group ++ [x]) rest

variable {fits : List α → Bool}

theorem flatten_pack (group items : List α) : (pack fits group items).flatten = group ++ items := by
  induction items generalizing group with
  | nil =>
    rw [pack]
    split
    · rename_i none
      simp [isEmpty_iff.mp none]
    · simp
  | cons x rest ih =>
    rw [pack]
    split
    · rw [flatten_cons, ih]
      rfl
    · rw [ih, append_assoc]
      rfl

/-- The group being filled is the start of the first one. -/
theorem pack_eq_cons {group : List α} (some_item : group ≠ []) (items : List α) :
    ∃ more groups, pack fits group items = (group ++ more) :: groups := by
  induction items generalizing group with
  | nil =>
    rw [pack, if_neg (by simpa using some_item)]
    exact ⟨[], [], by simp⟩
  | cons x rest ih =>
    rw [pack]
    split
    · exact ⟨[], pack fits [x] rest, by simp⟩
    · obtain ⟨more, groups, packed⟩ := ih (append_ne_nil_of_right_ne_nil group (cons_ne_nil x []))
      exact ⟨x :: more, groups, by rw [packed, append_assoc]; rfl⟩

/-- Every group holds an item, and fits. -/
theorem fits_of_mem_pack {group items : List α} (current : group ≠ [] → fits group = true)
    (single : ∀ x ∈ items, fits [x] = true) :
    ∀ packed ∈ pack fits group items, packed ≠ [] ∧ fits packed = true := by
  induction items generalizing group with
  | nil =>
    rw [pack]
    split
    · nofun
    · rename_i some_item
      have some_item : group ≠ [] := fun none => some_item (isEmpty_iff.mpr none)
      exact forall_mem_singleton.mpr ⟨some_item, current some_item⟩
  | cons x rest ih =>
    obtain ⟨here, later⟩ := forall_mem_cons.mp single
    rw [pack]
    split
    · rename_i full
      have some_item : group ≠ [] := isEmpty_eq_false_iff.mp full.1
      exact forall_mem_cons.mpr ⟨⟨some_item, current some_item⟩, ih (fun _ => here) later⟩
    · rename_i space
      refine ih (fun _ => ?_) later
      rcases eq_or_ne group [] with rfl | some_item
      · exact here
      · by_contra full
        exact space ⟨isEmpty_eq_false_iff.mpr some_item, Bool.eq_false_iff.mpr full⟩

/-- A group is closed only when the next item does not fit into it. -/
theorem isChain_pack (group items : List α) :
    (pack fits group items).IsChain fun packed next =>
      ∃ x rest, next = x :: rest ∧ fits (packed ++ [x]) = false := by
  induction items generalizing group with
  | nil =>
    rw [pack]
    split
    · exact .nil
    · exact .singleton _
  | cons x rest ih =>
    rw [pack]
    split
    · rename_i full
      have first : ∃ more groups, pack fits [x] rest = ([x] ++ more) :: groups :=
        pack_eq_cons (cons_ne_nil x []) rest
      obtain ⟨more, groups, packed⟩ := first
      have later := ih [x]
      rw [packed] at later ⊢
      exact isChain_cons_cons.mpr ⟨⟨x, more, rfl, full.2⟩, later⟩
    · exact ih _

end E6irc.Base
