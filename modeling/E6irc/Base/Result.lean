import Mathlib

/-!
# Results that may be errors

What is known of the parts when a computation in `Except` or `Option` succeeds.
-/

namespace E6irc.Base

open List

variable {ε α β : Type} {x : Except ε α} {b : β} {as : List α} {bs : List β} {a : α}

theorem map_eq_ok {f : α → β} (mapped : x.map f = .ok b) : ∃ a, x = .ok a ∧ b = f a := by
  cases x with
  | error e => cases mapped
  | ok a =>
    cases mapped
    exact ⟨a, rfl, rfl⟩

variable {f : α → Except ε β}

theorem bind_eq_ok (bound : x >>= f = .ok b) : ∃ a, x = .ok a ∧ f a = .ok b := by
  cases x with
  | error e => cases bound
  | ok a => exact ⟨a, rfl, bound⟩

/-- What a traversal gives was given by one of the elements. -/
theorem exists_of_mapM_eq_ok
    (all : as.mapM f = .ok bs) (among : b ∈ bs) : ∃ a ∈ as, f a = .ok b := by
  induction as generalizing bs with
  | nil =>
    cases all
    cases among
  | cons a as ih =>
    rw [mapM_cons] at all
    obtain ⟨first, isFirst, all⟩ := bind_eq_ok all
    obtain ⟨rest, isRest, all⟩ := bind_eq_ok all
    cases all
    rcases mem_cons.mp among with rfl | later
    · exact ⟨a, mem_cons_self, isFirst⟩
    · obtain ⟨a', among', gives⟩ := ih isRest later
      exact ⟨a', mem_cons_of_mem _ among', gives⟩

variable {e : ε}

theorem bind_ne_error (never : x ≠ .error e)
    (later : ∀ a, f a ≠ .error e) : x >>= f ≠ .error e := by
  cases x with
  | error other => exact fun same => never (congrArg _ (Except.error.inj same))
  | ok a => exact later a

/-- A traversal fails only as one of its elements does. -/
theorem mapM_ne_error (never : ∀ a, f a ≠ .error e) (as : List α) : as.mapM f ≠ .error e := by
  induction as with
  | nil => nofun
  | cons a as ih =>
    rw [mapM_cons]
    exact bind_ne_error (never a) fun _ => bind_ne_error ih fun _ => nofun

/-- A traversal succeeds exactly if each of its elements does. -/
theorem mapM_ok_iff : (∃ bs, as.mapM f = .ok bs) ↔ ∀ a ∈ as, ∃ b, f a = .ok b := by
  induction as with
  | nil => exact iff_of_true ⟨[], rfl⟩ nofun
  | cons a as ih =>
    rw [forall_mem_cons, ← ih, mapM_cons]
    constructor
    · intro ⟨bs, all⟩
      obtain ⟨b, first, all⟩ := bind_eq_ok all
      obtain ⟨rest, later, -⟩ := bind_eq_ok all
      exact ⟨⟨b, first⟩, ⟨rest, later⟩⟩
    · intro ⟨⟨b, first⟩, ⟨rest, later⟩⟩
      rw [first, later]
      exact ⟨b :: rest, rfl⟩

/-- A traversal reads back what was written element by element. -/
theorem mapM_map_eq_ok {g : β → α}
    (each : ∀ b ∈ bs, f (g b) = .ok b) : (bs.map g).mapM f = .ok bs := by
  induction bs with
  | nil => rfl
  | cons b bs ih =>
    rw [map_cons, mapM_cons, each b mem_cons_self,
      ih fun b' among => each b' (mem_cons_of_mem _ among)]
    rfl

theorem foldlM_ne_error {step : β → α → Except ε β} (never : ∀ b a, step b a ≠ .error e)
    (as : List α) (b : β) : as.foldlM step b ≠ .error e := by
  induction as generalizing b with
  | nil => nofun
  | cons a as ih =>
    rw [foldlM_cons]
    exact bind_ne_error (never b a) ih

theorem toOption_eq_some (some : x.toOption = some a) : x = .ok a := by
  cases x with
  | error e => cases some
  | ok b =>
    cases some
    rfl

/-- A value built from the proof of its own condition is the given one exactly when
their data are the same. -/
theorem dite_some_iff {p same : Prop} [Decidable p] {build : p → α}
    (holds : same → p) (data : ∀ proof, build proof = a ↔ same) :
    (if proof : p then some (build proof) else none) = some a ↔ same := by
  split
  · rename_i proof
    rw [Option.some.injEq]
    exact data proof
  · rename_i fails
    exact iff_of_false (fun built => nomatch built) fun same => fails (holds same)

end E6irc.Base
