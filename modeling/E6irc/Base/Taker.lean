import E6irc.Base.Result

/-!
# Items off a stream

A `Taker` takes one item off the front of a buffer, or says that the buffer holds less
than one.  What it decides it decides from what is there: more of the stream behind it
changes neither the item nor the error.  Hence `feed_eq`: what is read of a stream does
not depend on how the stream is cut.
-/

namespace E6irc.Base

open List

structure Taker (σ δ α : Type) where
  take : List σ → Except δ (Option (α × List σ))
  shorter : ∀ {buffer a rest}, take buffer = .ok (some (a, rest)) → rest.length < buffer.length
  item : ∀ {buffer a rest} more, take buffer = .ok (some (a, rest)) →
    take (buffer ++ more) = .ok (some (a, rest ++ more))
  error : ∀ {buffer e} more, take buffer = .error e → take (buffer ++ more) = .error e

namespace Taker

variable {σ δ α : Type} (t : Taker σ δ α) {buffer : List σ}

/-- Every item of the buffer, then what is left of it or the error that ends it. -/
def drain (buffer : List σ) : List α × Except δ (List σ) :=
  match _ : t.take buffer with
  | .error e => ([], .error e)
  | .ok none => ([], .ok buffer)
  | .ok (some (a, rest)) =>
    let (items, left) := drain rest
    (a :: items, left)
termination_by buffer.length
decreasing_by exact t.shorter (by assumption)

/-- The chunks are appended to the buffer one by one, and it is drained after each. -/
def feed : List σ → List (List σ) → List α × Except δ (List σ)
  | buffer, [] => ([], .ok buffer)
  | buffer, chunk :: chunks =>
    match t.drain (buffer ++ chunk) with
    | (items, .error e) => (items, .error e)
    | (items, .ok rest) =>
      let (more, left) := feed rest chunks
      (items ++ more, left)

variable {t}

theorem drain_of_error {e : δ} (taken : t.take buffer = .error e) :
    t.drain buffer = ([], .error e) := by
  rw [drain]
  split <;> simp_all

theorem drain_of_none (taken : t.take buffer = .ok none) : t.drain buffer = ([], .ok buffer) := by
  rw [drain]
  split <;> simp_all

theorem drain_of_some {a : α} {rest : List σ} (taken : t.take buffer = .ok (some (a, rest))) :
    t.drain buffer = (a :: (t.drain rest).1, (t.drain rest).2) := by
  rw [drain]
  split <;> simp_all

theorem drain_eq_nil {rest : List σ} :
    t.drain buffer = ([], .ok rest) ↔ t.take buffer = .ok none ∧ buffer = rest := by
  rcases taken : t.take buffer with e | _ | ⟨a, left⟩
  · simp [drain_of_error taken]
  · simp [drain_of_none taken]
  · simp [drain_of_some taken]

theorem drain_eq_cons {a : α} {items : List α} {left : Except δ (List σ)} :
    t.drain buffer = (a :: items, left) ↔
      ∃ rest, t.take buffer = .ok (some (a, rest)) ∧ t.drain rest = (items, left) := by
  rcases taken : t.take buffer with e | _ | ⟨b, rest⟩
  · simp [drain_of_error taken]
  · simp [drain_of_none taken]
  · simp [drain_of_some taken, Prod.ext_iff, and_assoc]

/-- Draining stops where less than one item is left. -/
theorem take_of_drain {rest : List σ} (drained : (t.drain buffer).2 = .ok rest) :
    t.take rest = .ok none := by
  fun_induction t.drain buffer with
  | case1 => cases drained
  | case2 buffer taken =>
    cases drained
    exact taken
  | case3 buffer a rest taken items left isDrained ih => exact ih (by rw [isDrained]; exact drained)

theorem drain_append (buffer more : List σ) : t.drain (buffer ++ more) =
    match t.drain buffer with
    | (items, .error e) => (items, .error e)
    | (items, .ok rest) =>
      (items ++ (t.drain (rest ++ more)).1, (t.drain (rest ++ more)).2) := by
  fun_induction t.drain buffer with
  | case1 buffer e taken => exact drain_of_error (t.error more taken)
  | case2 buffer taken => rfl
  | case3 buffer a rest taken items left isDrained ih =>
    rw [drain_of_some (t.item more taken), ih, isDrained]
    cases left <;> rfl

/-- Whatever the cuts, what is read is what is read of the whole. -/
theorem feed_eq (waits : t.take buffer = .ok none) (chunks : List (List σ)) :
    t.feed buffer chunks = t.drain (buffer ++ chunks.flatten) := by
  induction chunks generalizing buffer with
  | nil => rw [feed, flatten_nil, append_nil, drain_of_none waits]
  | cons chunk chunks ih =>
    rw [feed, flatten_cons, ← append_assoc, drain_append (buffer ++ chunk)]
    have stops {rest} : (t.drain (buffer ++ chunk)).2 = .ok rest → _ := take_of_drain
    generalize t.drain (buffer ++ chunk) = drained at stops
    match drained with
    | (items, .error e) => rfl
    | (items, .ok rest) => simp only [ih (stops rfl)]

end Taker

end E6irc.Base
