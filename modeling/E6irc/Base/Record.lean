import Mathlib

/-!
# Records written one entry at a time

A record is folded from a list of entries, each of which sets or extends some of
its fields.  A field that entries set holds what the last of them set; a field
that entries extend holds all of what they added, in order.
-/

namespace E6irc.Base

variable {σ ε ν : Type} {write : σ → ε → σ} {entries : List ε} {start : σ}

theorem foldl_sets {field : σ → ν} {sets : ε → Option ν}
    (step : ∀ s, ∀ e ∈ entries, field (write s e) = (sets e).getD (field s)) :
    field (entries.foldl write start) = (entries.filterMap sets).getLast?.getD (field start) := by
  induction entries using List.reverseRecOn with
  | nil => rfl
  | append_singleton entries e ih =>
    have before := ih fun s e' among => step s e' (List.mem_append_left _ among)
    rw [List.foldl_append, List.foldl_cons, List.foldl_nil, step _ e (by simp), before,
      List.filterMap_append]
    cases held : sets e with
    | none => simp [held]
    | some v => simp [held]

theorem foldl_extends {field : σ → List ν} {adds : ε → Option ν}
    (step : ∀ s e, field (write s e) = field s ++ (adds e).toList) :
    field (entries.foldl write start) = field start ++ entries.filterMap adds := by
  induction entries using List.reverseRecOn with
  | nil => simp
  | append_singleton entries e ih =>
    rw [List.foldl_append, List.foldl_cons, List.foldl_nil, step, ih, List.filterMap_append]
    cases held : adds e with
    | none => simp [held]
    | some v => simp [held]

end E6irc.Base
