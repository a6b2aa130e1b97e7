import Mathlib

/-!
# Readers

A reader takes symbols from the front of a text, or fails.  A text is parsed when
a reader takes all of it.

`Reads P` says that a reader takes nothing but symbols of the class `P`.  It goes
through sequencing and attempts, so what a parser accepts is in the class when the
readers of its single symbols are (`forall_of_parseWith`).

`Carries f g r r'` says that `r'` does on a text with every symbol replaced by `f`
of it what `r` does on the text, with `g` of the result.  A reader that carries
itself cannot tell the two texts apart (`parseWith_map`).
-/

namespace E6irc.Base

abbrev Reader (σ : Type) := StateT (List σ) Option

namespace Reader

variable {σ α β : Type}

/-- Take the next symbol if it is `c`. -/
def given [DecidableEq σ] (c : σ) : Reader σ Unit := fun text =>
  match text with
  | [] => none
  | b :: rest => if b = c then some ((), rest) else none

/-- Take what the reader takes, or nothing where it fails. -/
def attempt (r : Reader σ α) : Reader σ (Option α) := fun text =>
  match r text with
  | none => some (none, text)
  | some (a, rest) => some (some a, rest)

/-- Take the longest run of symbols that `p` accepts. -/
def run (p : σ → Bool) : Reader σ (List σ) := fun text =>
  some (text.takeWhile p, text.dropWhile p)

/-- Parse the whole text. -/
def parseWith (r : Reader σ α) (text : List σ) : Option α :=
  match r text with
  | some (a, []) => some a
  | _ => none

/-- What the reader takes is of the class `P`. -/
def Reads (P : σ → Prop) (r : Reader σ α) : Prop :=
  ∀ text a rest, r text = some (a, rest) → ∃ used, text = used ++ rest ∧ ∀ b ∈ used, P b

variable {P : σ → Prop} {r : Reader σ α}

theorem Reads.pure (a : α) : Reads P (pure a : Reader σ α) := by
  intro text _ rest taken
  cases taken
  exact ⟨[], rfl, nofun⟩

theorem Reads.bind {next : α → Reader σ β} (first : Reads P r) (later : ∀ a, Reads P (next a)) :
    Reads P (r >>= next) := by
  intro text b rest taken
  obtain ⟨⟨a, middle⟩, reads, continues⟩ := Option.bind_eq_some_iff.mp taken
  obtain ⟨front, rfl, inFront⟩ := first text a middle reads
  obtain ⟨back, rfl, inBack⟩ := later a middle b rest continues
  refine ⟨front ++ back, (List.append_assoc front back rest).symm, fun c mem => ?_⟩
  exact (List.mem_append.mp mem).elim (inFront c) (inBack c)

theorem guard_reads {p : Prop} [Decidable p] : Reads P (guard p : Reader σ Unit) := by
  unfold guard
  split
  · exact .pure _
  · exact fun _ _ _ taken => nomatch taken

theorem Reads.given [DecidableEq σ] {c : σ} (class_ : P c) : Reads P (given c) := by
  intro text _ rest taken
  cases text with
  | nil => cases taken
  | cons b text =>
    simp only [Reader.given, Option.ite_none_right_eq_some, Option.some.injEq, Prod.mk.injEq,
      true_and] at taken
    obtain ⟨rfl, rfl⟩ := taken
    exact ⟨[b], rfl, by simpa using class_⟩

theorem Reads.attempt (reads : Reads P r) : Reads P r.attempt := by
  intro text a rest taken
  unfold Reader.attempt at taken
  split at taken
  · cases taken
    exact ⟨[], rfl, nofun⟩
  · rename_i found
    cases taken
    exact reads _ _ _ found

theorem Reads.run {p : σ → Bool} (class_ : ∀ b, p b = true → P b) : Reads P (run p) := by
  intro text a rest taken
  cases taken
  exact ⟨text.takeWhile p, List.takeWhile_append_dropWhile.symm,
    fun b mem => class_ b (List.mem_takeWhile_imp mem)⟩

/-- A parsed text is of the class its reader reads. -/
theorem forall_of_parseWith {text : List σ} {a : α} (reads : Reads P r)
    (parsed : r.parseWith text = some a) : ∀ b ∈ text, P b := by
  unfold parseWith at parsed
  split at parsed
  · rename_i taken
    obtain ⟨used, rfl, all⟩ := reads _ _ _ taken
    rwa [List.append_nil]
  · cases parsed

/-! ## Texts that read alike -/

def Carries (f : σ → σ) (g : α → α) (r r' : Reader σ α) : Prop :=
  ∀ text, r' (text.map f) = (r text).map fun taken => (g taken.1, taken.2.map f)

variable {f : σ → σ} {g : α → α} {h : β → β} {r' : Reader σ α}

theorem Carries.pure (a : α) : Carries f g (Pure.pure a) (Pure.pure (g a)) := fun _ => rfl

theorem Carries.bind {next next' : α → Reader σ β} (first : Carries f g r r')
    (later : ∀ a, Carries f h (next a) (next' (g a))) : Carries f h (r >>= next) (r' >>= next') := by
  intro text
  change (r' (text.map f)).bind (fun taken => next' taken.1 taken.2) =
    ((r text).bind fun taken => next taken.1 taken.2).map _
  rw [first text]
  cases r text with
  | none => rfl
  | some taken => exact later taken.1 taken.2

theorem Carries.map {k : α → β} (carries : Carries f g r r') (same : ∀ a, k (g a) = h (k a)) :
    Carries f h (k <$> r) (k <$> r') := by
  intro text
  change (r' (text.map f)).bind (fun taken => some (k taken.1, taken.2)) =
    ((r text).bind fun taken => some (k taken.1, taken.2)).map _
  rw [carries text]
  cases r text with
  | none => rfl
  | some taken => simp [same]

theorem guard_carries {p p' : Prop} [Decidable p] [Decidable p'] (same : p ↔ p') :
    Carries f id (guard p : Reader σ Unit) (guard p') := by
  by_cases holds : p
  · rw [show (guard p : Reader σ Unit) = Pure.pure () from if_pos holds,
      show (guard p' : Reader σ Unit) = Pure.pure () from if_pos (same.mp holds)]
    exact .pure ()
  · rw [show (guard p : Reader σ Unit) = failure from if_neg holds,
      show (guard p' : Reader σ Unit) = failure from if_neg (mt same.mpr holds)]
    exact fun _ => rfl

theorem Carries.given [DecidableEq σ] {c : σ} (same : ∀ b, f b = c ↔ b = c) :
    Carries f id (given c) (given c) := by
  intro text
  cases text with
  | nil => rfl
  | cons b text =>
    simp only [Reader.given, List.map_cons, same b]
    split <;> rfl

theorem Carries.attempt (carries : Carries f id r r') : Carries f id r.attempt r'.attempt := by
  intro text
  unfold Reader.attempt
  rw [carries text]
  cases r text <;> rfl

theorem Carries.run {p : σ → Bool} (same : ∀ b, p (f b) = p b) :
    Carries f (List.map f) (run p) (run p) := by
  have both : p ∘ f = p := funext same
  intro text
  simp [Reader.run, List.takeWhile_map, List.dropWhile_map, both]

theorem parseWith_map (carries : Carries f id r r) (text : List σ) :
    r.parseWith (text.map f) = r.parseWith text := by
  unfold parseWith
  rw [carries text]
  cases r text with
  | none => rfl
  | some taken =>
    obtain ⟨a, rest⟩ := taken
    cases rest <;> rfl

end Reader

end E6irc.Base
