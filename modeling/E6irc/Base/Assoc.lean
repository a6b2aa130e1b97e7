import Mathlib

/-!
# Maps

A hash map is an association list with distinct keys.  `retain` keeps the entries
that satisfy a condition, and `weight` is the sum of a measure of the entries.

An `Endings` is a map from names to the epoch at which each last ended.  Who began
at an epoch asks it what has ended since; it `Tells` that as long as an entry is
dropped only when it is no later than the oldest who may still ask.
-/

namespace E6irc.Base

open List AList

variable {κ ν : Type}

/-- The entries of a map that satisfy `keep`. -/
def retain (keep : κ → ν → Bool) (map : AList fun _ : κ => ν) : AList fun _ : κ => ν :=
  ⟨map.entries.filter fun entry => keep entry.1 entry.2, map.nodupKeys.sublist filter_sublist⟩

/-- Every value of a map replaced by `f` of it. -/
def mapValues {ν' : Type} (f : κ → ν → ν') (map : AList fun _ : κ => ν) : AList fun _ : κ => ν' :=
  ⟨map.entries.map fun entry => ⟨entry.1, f entry.1 entry.2⟩, by
    have keys := map.nodupKeys
    rw [List.NodupKeys, List.keys] at keys ⊢
    simpa [Function.comp_def] using keys⟩

variable {ν' : Type} {map : AList fun _ : κ => ν} {k : κ} {f : κ → ν → ν'}

theorem lookup_mapValues_eq_some [DecidableEq κ] {v : ν'} :
    (mapValues f map).lookup k = some v ↔ ∃ old, map.lookup k = some old ∧ f k old = v := by
  rw [← Option.mem_def, mem_lookup_iff]
  constructor
  · intro among
    obtain ⟨⟨key, old⟩, held, same⟩ := mem_map.mp among
    obtain ⟨rfl, value⟩ := Sigma.mk.inj same
    exact ⟨old, mem_lookup_iff.mpr held, eq_of_heq value⟩
  · rintro ⟨old, held, rfl⟩
    exact mem_map.mpr ⟨⟨k, old⟩, mem_lookup_iff.mp held, rfl⟩

theorem lookup_mapValues [DecidableEq κ] :
    (mapValues f map).lookup k = (map.lookup k).map (f k) := by
  refine Option.ext fun v => ?_
  rw [lookup_mapValues_eq_some, Option.map_eq_some_iff]

theorem lookup_retain_eq_some [DecidableEq κ] {keep : κ → ν → Bool}
    {v : ν} : (retain keep map).lookup k = some v ↔ map.lookup k = some v ∧ keep k v := by
  rw [← Option.mem_def, ← Option.mem_def, mem_lookup_iff, mem_lookup_iff]
  exact mem_filter

section

variable {κ : Type*} [DecidableEq κ] {map : AList fun _ : κ => ν} {k k' : κ} {v v' : ν}

/-- What is found after an insertion was inserted, or found before. -/
theorem of_lookup_insert
    (found : (map.insert k v).lookup k' = some v') :
    (k' = k ∧ v' = v) ∨ k' ≠ k ∧ map.lookup k' = some v' := by
  rcases eq_or_ne k' k with rfl | apart
  · rw [lookup_insert] at found
    exact .inl ⟨rfl, (Option.some.inj found).symm⟩
  · rw [lookup_insert_ne apart] at found
    exact .inr ⟨apart, found⟩

theorem of_lookup_erase (found : (map.erase k).lookup k' = some v) :
    k' ≠ k ∧ map.lookup k' = some v := by
  rcases eq_or_ne k' k with rfl | apart
  · simp at found
  · rw [lookup_erase_ne apart] at found
    exact ⟨apart, found⟩

end

/-! ## Weights -/

/-- The sum of `f` over the entries. -/
def weight (f : ν → ℕ) (map : AList fun _ : κ => ν) : ℕ :=
  (map.entries.map fun entry => f entry.2).sum

section Weight

variable {f : ν → ℕ} {map : AList fun _ : κ => ν} {k : κ} {v : ν}

variable [DecidableEq κ]

theorem weight_erase (held : map.lookup k = some v) :
    weight f map = f v + weight f (map.erase k) := by
  have split : ∀ entries : List (Sigma fun _ : κ => ν), entries.dlookup k = some v →
      (entries.map fun entry => f entry.2).sum =
        f v + ((entries.kerase k).map fun entry => f entry.2).sum := by
    intro entries
    induction entries with
    | nil => nofun
    | cons first rest ih =>
      intro found
      rcases eq_or_ne k first.1 with rfl | apart
      · rw [dlookup_cons_eq] at found
        rw [kerase_cons_eq rfl, map_cons, sum_cons, Option.some.inj found]
      · rw [dlookup_cons_ne _ _ apart] at found
        rw [kerase_cons_ne apart, map_cons, map_cons, sum_cons, sum_cons, ih found]
        omega
  exact split map.entries held

theorem weight_insert (k : κ) (v : ν) (map : AList fun _ : κ => ν) :
    weight f (map.insert k v) = f v + weight f (map.erase k) :=
  rfl

theorem erase_of_lookup_eq_none (absent : map.lookup k = none) : map.erase k = map :=
  AList.ext (kerase_of_notMem_keys (lookup_eq_none.mp absent))

/-- What a change takes from each value, it takes from the whole. -/
theorem weight_mapValues {g : κ → ν → ν} {taken : ν → ℕ}
    (each : ∀ k v, map.lookup k = some v → f (g k v) + taken v = f v) :
    weight f (mapValues g map) + weight taken map = weight f map := by
  have within : ∀ entry ∈ map.entries, f (g entry.1 entry.2) + taken entry.2 = f entry.2 :=
    fun entry among => each _ _ (mem_lookup_iff.mpr among)
  unfold weight mapValues
  dsimp only
  generalize map.entries = entries at within
  induction entries with
  | nil => rfl
  | cons entry entries ih =>
    have here := within entry mem_cons_self
    have rest := ih fun other among => within other (mem_cons_of_mem _ among)
    simp only [map_cons, sum_cons]
    omega

theorem weight_erase_le (k : κ) : weight f (map.erase k) ≤ weight f map := by
  cases held : map.lookup k with
  | none => rw [erase_of_lookup_eq_none held]
  | some v =>
    rw [weight_erase held]
    omega

theorem weight_insert_le (k : κ) (v : ν) : weight f (map.insert k v) ≤ f v + weight f map := by
  rw [weight_insert]
  exact Nat.add_le_add_left (weight_erase_le k) _

/-- Replacing a value changes the weight by the difference. -/
theorem weight_replace {old : ν} (held : map.lookup k = some old) (v : ν) :
    weight f (map.insert k v) + f old = weight f map + f v := by
  rw [weight_insert, weight_erase held]
  omega

omit [DecidableEq κ] in
/-- What a fold adds to a measure is at most what its elements add. -/
theorem measure_foldl_le {σ α : Type} (measure : σ → ℕ) {added : α → ℕ} {step : σ → α → σ}
    (each : ∀ s a, measure (step s a) ≤ measure s + added a) (s : σ) (items : List α) :
    measure (items.foldl step s) ≤ measure s + (items.map added).sum := by
  induction items generalizing s with
  | nil => exact Nat.le_refl _
  | cons item items ih =>
    have first := each s item
    have rest := ih (step s item)
    rw [foldl_cons, map_cons, sum_cons]
    omega

theorem weight_eq_zero : weight f map = 0 ↔ ∀ k v, map.lookup k = some v → f v = 0 := by
  have zero_iff : ∀ entries : List (Sigma fun _ : κ => ν),
      (entries.map fun entry => f entry.2).sum = 0 ↔ ∀ entry ∈ entries, f entry.2 = 0 := by
    intro entries
    induction entries with
    | nil => simp
    | cons entry entries ih => simp [ih]
  rw [weight, zero_iff]
  constructor
  · intro zero k v held
    exact zero ⟨k, v⟩ (mem_lookup_iff.mp held)
  · intro zero entry among
    exact zero entry.1 entry.2 (mem_lookup_iff.mpr among)

omit [DecidableEq κ] in
theorem length_eq_weight : map.entries.length = weight (fun _ => 1) map := by
  simp [weight]

theorem length_insert_of_some {old : ν} (held : map.lookup k = some old) (v : ν) :
    (map.insert k v).entries.length = map.entries.length := by
  have replaced := weight_replace (f := fun _ => 1) held v
  rw [length_eq_weight, length_eq_weight]
  omega

theorem length_insert_of_none (absent : map.lookup k = none) (v : ν) :
    (map.insert k v).entries.length = map.entries.length + 1 := by
  rw [length_eq_weight, length_eq_weight, weight_insert, erase_of_lookup_eq_none absent]
  omega

theorem length_erase_of_some (held : map.lookup k = some v) :
    (map.erase k).entries.length + 1 = map.entries.length := by
  rw [length_eq_weight, length_eq_weight, weight_erase held]
  omega

end Weight

/-! ## Endings -/

/-- The epoch at which each name last ended. -/
abbrev Endings (κ : Type) := AList fun _ : κ => ℕ

namespace Endings

variable [DecidableEq κ] {endings : Endings κ} {taken epoch oldest : ℕ} {since : κ → Prop}

/-- The name ended after `taken`, as far as is remembered. -/
def endedSince (endings : Endings κ) (taken : ℕ) (name : κ) : Bool :=
  (endings.lookup name).any (taken < ·)

/-- The names remembered to have ended after `taken` are those in `since`. -/
def Tells (endings : Endings κ) (taken : ℕ) (since : κ → Prop) : Prop :=
  ∀ name, endings.endedSince taken name = true ↔ since name

theorem endedSince_eq_true {name : κ} : endings.endedSince taken name = true ↔
    ∃ ended, endings.lookup name = some ended ∧ taken < ended := by
  simp [endedSince, Option.any_eq_true]

/-- Nothing has ended after the latest epoch. -/
theorem tells_now (past : ∀ name ended, endings.lookup name = some ended → ended ≤ epoch) :
    endings.Tells epoch fun _ => False := by
  intro name
  rw [endedSince_eq_true, iff_false]
  rintro ⟨ended, found, later⟩
  exact absurd (past name ended found) (not_le.mpr later)

/-- Entries that are no later than the oldest who may ask can be forgotten. -/
theorem Tells.retain (tells : endings.Tells taken since) (older : oldest ≤ taken) :
    Tells (retain (fun _ ended => oldest < ended) endings) taken since := by
  intro name
  rw [← tells name, endedSince_eq_true, endedSince_eq_true]
  constructor
  · rintro ⟨ended, found, later⟩
    exact ⟨ended, (lookup_retain_eq_some.mp found).1, later⟩
  · rintro ⟨ended, found, later⟩
    exact ⟨ended, lookup_retain_eq_some.mpr ⟨found, decide_eq_true (Nat.lt_of_le_of_lt older later)⟩, later⟩

theorem Tells.insert (tells : endings.Tells taken since) (later : taken < epoch) (name : κ) :
    Tells (AList.insert name epoch endings) taken fun other => other = name ∨ since other := by
  intro other
  rw [endedSince_eq_true]
  rcases eq_or_ne other name with rfl | apart
  · simp [lookup_insert, later]
  · rw [lookup_insert_ne apart, ← endedSince_eq_true, tells other]
    simp [apart]

end Endings

end E6irc.Base
