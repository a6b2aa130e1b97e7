import Mathlib

/-!
# Lists with one entry per key

A list whose entries have distinct keys, as a vector that is searched and
edited by key: `entryAt` finds, `removeKey` retains the rest, `replaceKey`
retains the rest and pushes.  `writeAt` is what one write of a log does to the
entry at one key, so that a fold of it is what a whole log does there.
-/

namespace E6irc.Base

open List

variable {α κ : Type} [DecidableEq κ] (key : α → κ)

/-- No two entries share a key. -/
def Keyed (l : List α) : Prop :=
  (l.map key).Nodup

def entryAt (k : κ) (l : List α) : Option α :=
  l.find? fun a => key a = k

def removeKey (k : κ) (l : List α) : List α :=
  l.filter fun a => key a ≠ k

def replaceKey (x : α) (l : List α) : List α :=
  removeKey key (key x) l ++ [x]

variable {key} {k k' : κ} {x : α} {l : List α}

theorem entryAt_removeKey :
    entryAt key k (removeKey key k' l) = if k' = k then none else entryAt key k l := by
  unfold entryAt removeKey
  rw [List.find?_filter]
  split
  · rename_i same
    subst same
    simp
  · rename_i apart
    congr 1
    funext a
    rcases eq_or_ne (key a) k with here | there
    · simp [here, Ne.symm apart]
    · simp [there]

theorem entryAt_replaceKey :
    entryAt key k (replaceKey key x l) = if key x = k then some x else entryAt key k l := by
  have removed : entryAt key k (removeKey key (key x) l) = _ := entryAt_removeKey
  unfold entryAt replaceKey at *
  rw [List.find?_append, removed]
  split
  · rename_i same
    simp [same]
  · rename_i apart
    simp [apart]

theorem Keyed.removeKey (keyed : Keyed key l) (k : κ) : Keyed key (removeKey key k l) :=
  keyed.sublist (filter_sublist.map key)

theorem Keyed.replaceKey (keyed : Keyed key l) (x : α) : Keyed key (replaceKey key x l) := by
  unfold Keyed Base.replaceKey
  rw [map_append, map_singleton]
  refine List.Nodup.append (keyed.removeKey (key x)) (nodup_singleton _) ?_
  rw [disjoint_singleton]
  simp [Base.removeKey]

/-- An entry is in the list exactly when it is what its key finds. -/
theorem Keyed.mem_iff (keyed : Keyed key l) : x ∈ l ↔ entryAt key (key x) l = some x := by
  constructor
  · intro mem
    have present : (entryAt key (key x) l).isSome := List.find?_isSome.mpr ⟨x, mem, by simp⟩
    obtain ⟨found, isFound⟩ := Option.isSome_iff_exists.mp present
    have same : key found = key x := by simpa using List.find?_some isFound
    rw [isFound, inj_on_of_nodup_map keyed (mem_of_find?_eq_some isFound) mem same]
  · exact mem_of_find?_eq_some

section

variable {β : Type} {f : β → α} {rows : List β}

theorem entryAt_map : entryAt key k (rows.map f) = (entryAt (fun row => key (f row)) k rows).map f :=
  List.find?_map

omit [DecidableEq κ] in
theorem keyed_map : Keyed key (rows.map f) ↔ Keyed (fun row => key (f row)) rows := by
  unfold Keyed
  rw [map_map]
  rfl

end

/-- Two lists with one entry per key hold the same entries when each key finds
the same in both. -/
theorem Keyed.perm {l' : List α} (keyed : Keyed key l) (keyed' : Keyed key l')
    (same : ∀ k, entryAt key k l = entryAt key k l') : l.Perm l' := by
  refine (perm_ext_iff_of_nodup (List.Nodup.of_map key keyed)
    (List.Nodup.of_map key keyed')).mpr fun x => ?_
  rw [keyed.mem_iff, keyed'.mem_iff, same]

/-! ## Logs of writes, seen at one key -/

section

variable {ω : Type} (target : ω → κ) (value : ω → Option α → Option α)

/-- What a write does to the entry at `k`. -/
def writeAt (k : κ) (held : Option α) (w : ω) : Option α :=
  if target w = k then value w held else held

variable {target value} {log : List ω} {held : Option α} {w : ω}

theorem foldl_writeAt_of_forall_ne (elsewhere : ∀ w ∈ log, target w ≠ k) :
    log.foldl (writeAt target value k) held = held := by
  induction log with
  | nil => rfl
  | cons w log ih =>
    rw [foldl_cons, writeAt, if_neg (elsewhere w mem_cons_self)]
    exact ih fun x mem => elsewhere x (mem_cons_of_mem w mem)

/-- The only write to a key in a log is the one that counts there. -/
theorem foldl_writeAt_of_mem (single : log.countP (target · = k) ≤ 1) (mem : w ∈ log)
    (here : target w = k) : log.foldl (writeAt target value k) held = value w held := by
  induction log with
  | nil => simp at mem
  | cons x log ih =>
    rw [countP_cons] at single
    rw [foldl_cons, writeAt]
    rcases mem_cons.mp mem with rfl | later
    · have none_left : ∀ x ∈ log, target x ≠ k := by
        have zero : log.countP (target · = k) = 0 := by simpa [here] using single
        simpa [countP_eq_zero] using zero
      rw [if_pos here, foldl_writeAt_of_forall_ne none_left]
    · have counted : 0 < log.countP (target · = k) :=
        countP_pos_iff.mpr ⟨w, later, by simpa using here⟩
      have elsewhere : target x ≠ k := by
        intro same
        rw [if_pos (by simpa using same)] at single
        omega
      rw [if_neg elsewhere]
      exact ih (by omega) later

variable [BEq ω] [LawfulBEq ω]

/-- Taking a write to another key out of a log changes nothing at `k`. -/
theorem foldl_writeAt_erase (elsewhere : target w ≠ k) :
    (log.erase w).foldl (writeAt target value k) held =
      log.foldl (writeAt target value k) held := by
  induction log generalizing held with
  | nil => rfl
  | cons x log ih =>
    rw [erase_cons]
    split
    · rename_i same
      rw [beq_iff_eq] at same
      rw [foldl_cons, writeAt, if_neg (same ▸ elsewhere)]
    · exact ih

/-- Taking the only write to a key out of a log leaves none. -/
theorem ne_of_mem_erase (single : log.countP (target · = k) ≤ 1) (mem : w ∈ log)
    (here : target w = k) : ∀ x ∈ log.erase w, target x ≠ k := by
  have zero : (log.erase w).countP (target · = k) = 0 := by
    rw [(perm_cons_erase mem).countP_eq, countP_cons_of_pos (by simpa using here)] at single
    omega
  simpa [countP_eq_zero] using zero

/-- A log with at most one write to a key may take any of its writes first. -/
theorem foldl_writeAt_front (single : log.countP (target · = k) ≤ 1) (mem : w ∈ log) :
    (log.erase w).foldl (writeAt target value k) (writeAt target value k held w) =
      log.foldl (writeAt target value k) held := by
  rcases eq_or_ne (target w) k with here | elsewhere
  · rw [foldl_writeAt_of_mem single mem here,
      foldl_writeAt_of_forall_ne (ne_of_mem_erase single mem here), writeAt, if_pos here]
  · rw [writeAt, if_neg elsewhere, foldl_writeAt_erase elsewhere]

end

end E6irc.Base
