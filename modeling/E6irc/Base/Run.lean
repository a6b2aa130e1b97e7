import Mathlib

/-!
# Guarded transition systems and their runs

A `System` is an executable step function: `step s e` is the next state when
the event `e` is enabled in `s`, and `none` otherwise.  `System.Run ok es s`
says that the events `es`, each meeting the side condition `ok` where it is
taken, lead from the initial state to `s`.  The trace is part of the relation,
so a property may compare a state with everything that led to it.

* `Run.invariant` is the induction rule: an invariant that holds initially and
  across every step holds in every state reached.
* `Run.always_iff` turns a per-step equivalence into one about whole runs: when
  one step keeps a property exactly if it meets `ok`, a run keeps it throughout
  exactly if all of its steps meet `ok`.
-/

namespace E6irc.Base

open List

universe u v

/-- A guarded step succeeds when its guard holds and the rest succeeds. -/
theorem guard_bind_eq_some {σ : Type} {p : Prop} [Decidable p] {rest : Unit → Option σ} {s : σ} :
    ((guard p : Option Unit) >>= rest) = some s ↔ p ∧ rest () = some s := by
  by_cases holds : p <;> simp [guard, holds]

theorem guard_some_eq_some {σ : Type} {p : Prop} [Decidable p] {s t : σ} :
    ((guard p : Option Unit) >>= fun _ => some s) = some t ↔ p ∧ s = t := by
  rw [guard_bind_eq_some, Option.some.injEq]

/-- An initial state and a guarded step function. -/
structure System (σ : Type u) (ε : Type v) where
  init : σ
  step : σ → ε → Option σ

namespace System

variable {σ : Type u} {ε : Type v} (sys : System σ ε)

/-- The state after the events `es`, when each is enabled in its turn. -/
def exec (es : List ε) : Option σ :=
  es.foldlM sys.step sys.init

/-- `es` leads from the initial state to `s`, every step meeting `ok`. -/
inductive Run (ok : List ε → σ → ε → Prop) : List ε → σ → Prop
  | nil : Run ok [] sys.init
  | snoc {es : List ε} {s s' : σ} {e : ε} :
    Run ok es s → ok es s e → sys.step s e = some s' → Run ok (es ++ [e]) s'

/-- No side condition: every run of the system. -/
abbrev anyStep : List ε → σ → ε → Prop := fun _ _ _ => True

variable {sys} {ok ok' : List ε → σ → ε → Prop} {es : List ε} {s : σ}

theorem exec_snoc (es : List ε) (e : ε) :
    sys.exec (es ++ [e]) = (sys.exec es).bind fun s => sys.step s e := by
  simp only [exec, foldlM_append, foldlM_cons, foldlM_nil, bind_pure]
  rfl

theorem Run.exec_eq (run : sys.Run ok es s) : sys.exec es = some s := by
  induction run with
  | nil => rfl
  | snoc _ _ step ih => rw [exec_snoc, ih, Option.bind_some, step]

theorem Run.unique {t : σ} (run : sys.Run ok es s) (other : sys.Run ok' es t) : s = t :=
  Option.some.inj (run.exec_eq.symm.trans other.exec_eq)

theorem Run.mono (weaken : ∀ es s e, ok es s e → ok' es s e) (run : sys.Run ok es s) :
    sys.Run ok' es s := by
  induction run with
  | nil => exact .nil
  | snoc _ meets step ih => exact .snoc ih (weaken _ _ _ meets) step

/-- A replay that succeeds is a run. -/
theorem run_of_exec (replay : sys.exec es = some s) : sys.Run anyStep es s := by
  induction es using List.reverseRecOn generalizing s with
  | nil =>
    cases replay
    exact .nil
  | append_singleton es e ih =>
    rw [exec_snoc] at replay
    obtain ⟨mid, reached, step⟩ := Option.bind_eq_some_iff.mp replay
    exact .snoc (ih reached) trivial step

/-- A replay, with a look at the state it ends in. -/
theorem exists_run {α : Type*} {observe : σ → α} {seen : α}
    (replay : (sys.exec es).map observe = some seen) : ∃ s, sys.Run anyStep es s ∧ observe s = seen := by
  obtain ⟨s, reached, same⟩ := Option.map_eq_some_iff.mp replay
  exact ⟨s, run_of_exec reached, same⟩

/-- The system with a decidable condition on state and event made a guard. -/
def restrict (sys : System σ ε) (keep : σ → ε → Bool) : System σ ε where
  init := sys.init
  step s e := if keep s e then sys.step s e else none

theorem Run.of_restrict {keep : σ → ε → Bool} (run : (sys.restrict keep).Run ok es s) :
    sys.Run (fun _ s e => keep s e = true) es s := by
  induction run with
  | nil => exact .nil
  | snoc _ _ step ih =>
    simp only [restrict, Option.ite_none_right_eq_some] at step
    exact .snoc ih step.1 step.2

variable {e : ε}

/-- The last step of a run that has one. -/
theorem Run.snoc_inv (run : sys.Run ok (es ++ [e]) s) :
    ∃ mid, sys.Run ok es mid ∧ ok es mid e ∧ sys.step mid e = some s := by
  generalize trace : es ++ [e] = full at run
  cases run with
  | nil => simp at trace
  | snoc prior meets step =>
    obtain ⟨rfl, last⟩ := append_inj' trace rfl
    cases last
    exact ⟨_, prior, meets, step⟩

variable {P : List ε → σ → Prop}

/-- A property of trace and state that holds initially and that every step
meeting `ok` keeps holds at the end of every such run. -/
theorem Run.invariant (base : P [] sys.init)
    (keep : ∀ es s e s', P es s → ok es s e → sys.step s e = some s' → P (es ++ [e]) s')
    (run : sys.Run ok es s) : P es s := by
  induction run with
  | nil => exact base
  | snoc _ meets step ih => exact keep _ _ _ _ ih meets step

/-- Every initial part of a run is a run. -/
theorem Run.of_prefix {front : List ε} (run : sys.Run ok es s) (part : front <+: es) :
    ∃ mid, sys.Run ok front mid := by
  induction run with
  | nil =>
    obtain rfl := prefix_nil.mp part
    exact ⟨_, .nil⟩
  | snoc prior meets step ih =>
    rcases prefix_concat_iff.mp part with rfl | shorter
    · exact ⟨_, .snoc prior meets step⟩
    · exact ih shorter

/-- `P` holds in every state the run `es` passes through. -/
def Always (sys : System σ ε) (P : List ε → σ → Prop) (es : List ε) : Prop :=
  ∀ front mid, front <+: es → sys.Run anyStep front mid → P front mid

theorem Always.snoc {s' : σ} (before : sys.Always P es)
    (run : sys.Run anyStep (es ++ [e]) s') (after : P (es ++ [e]) s') :
    sys.Always P (es ++ [e]) := by
  intro front mid part reached
  rcases prefix_concat_iff.mp part with rfl | shorter
  · rwa [reached.unique run]
  · exact before front mid shorter reached

theorem Always.front {front : List ε} (always : sys.Always P es)
    (part : front <+: es) : sys.Always P front :=
  fun shorter mid inner => always shorter mid (inner.trans part)

/-- When every run keeps `J`, and a step from a state with `J` and `P` keeps
`P` exactly if it meets `ok`, then a run keeps `P` throughout exactly if each
of its steps meets `ok`. -/
theorem Run.always_iff {J : List ε → σ → Prop} (base : P [] sys.init) (baseJ : J [] sys.init)
    (keepJ : ∀ es s e s', J es s → sys.step s e = some s' → J (es ++ [e]) s')
    (exact_step : ∀ es s e s', J es s → P es s → sys.step s e = some s' →
      (P (es ++ [e]) s' ↔ ok es s e))
    (run : sys.Run anyStep es s) : sys.Always P es ↔ sys.Run ok es s := by
  have side : ∀ {es s}, sys.Run anyStep es s → J es s := fun run =>
    run.invariant baseJ fun es s e s' held _ step => keepJ es s e s' held step
  induction run with
  | nil =>
    refine ⟨fun _ => .nil, fun _ front mid part reached => ?_⟩
    obtain rfl := prefix_nil.mp part
    have start : sys.Run ok [] sys.init := .nil
    rwa [reached.unique start]
  | @snoc es s s' e prior _ step ih =>
    have part : es <+: es ++ [e] := prefix_append _ _
    constructor
    · intro always
      have here := always es s part prior
      have next := always (es ++ [e]) s' (prefix_refl _) (.snoc prior trivial step)
      exact .snoc (ih.mp (always.front part))
        ((exact_step es s e s' (side prior) here step).mp next) step
    · intro meets
      obtain ⟨mid, front, last, _⟩ := meets.snoc_inv
      obtain rfl := prior.unique front
      have before := ih.mpr front
      exact before.snoc (.snoc prior trivial step)
        ((exact_step es s e s' (side prior) (before es s (prefix_refl _) prior) step).mpr last)

/-- `P` holds of every step that the run `es` makes. -/
def EachStep (sys : System σ ε) (P : List ε → σ → ε → Prop) (es : List ε) : Prop :=
  ∀ front e mid, front ++ [e] <+: es → sys.Run anyStep front mid → P front mid e

theorem Run.eachStep_iff (run : sys.Run anyStep es s) : sys.EachStep ok es ↔ sys.Run ok es s := by
  induction run with
  | nil => exact iff_of_true (fun front e _ part => by simp at part) .nil
  | @snoc es s s' e prior _ step ih =>
    constructor
    · intro each
      have before : sys.EachStep ok es := fun front other mid part =>
        each front other mid (part.trans (prefix_append _ _))
      exact .snoc (ih.mp before) (each es e s (prefix_refl _) prior) step
    · intro meets front other mid part reached
      obtain ⟨last, before, held, -⟩ := meets.snoc_inv
      obtain rfl := prior.unique before
      rcases prefix_concat_iff.mp part with whole | shorter
      · obtain ⟨rfl, same⟩ := append_inj' whole rfl
        cases same
        rwa [reached.unique prior]
      · exact ih.mpr before front other mid shorter reached

theorem Run.both (run : sys.Run ok es s) (other : sys.Run ok' es s) :
    sys.Run (fun es s e => ok es s e ∧ ok' es s e) es s := by
  induction run with
  | nil => exact .nil
  | snoc prior meets step ih =>
    obtain ⟨mid, before, held, -⟩ := other.snoc_inv
    obtain rfl := prior.unique before
    exact .snoc (ih before) ⟨meets, held⟩ step

end System

end E6irc.Base
