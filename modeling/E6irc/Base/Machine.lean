import Mathlib

/-!
# Machines that answer

A step takes a request and gives an answer with the next state; `serve` makes one for
each of a list of requests.  `serve_related` is forward simulation: when related states
give related answers and stay related, so do whole runs.
-/

namespace E6irc.Base

universe u

variable {σ τ ε ρ ρ' : Type u} {step : σ → ε → ρ × σ} {step' : τ → ε → ρ' × τ}

/-- The answers to a list of requests, and the state after them. -/
def serve (step : σ → ε → ρ × σ) (s : σ) : List ε → List ρ × σ
  | [] => ([], s)
  | e :: es => ((step s e).1 :: (serve step (step s e).2 es).1, (serve step (step s e).2 es).2)

theorem serve_append (s : σ) (es fs : List ε) :
    serve step s (es ++ fs) =
      ((serve step s es).1 ++ (serve step (serve step s es).2 fs).1,
        (serve step (serve step s es).2 fs).2) := by
  induction es generalizing s with
  | nil => rfl
  | cons e es ih => rw [List.cons_append, serve, ih, serve, List.cons_append]

theorem serve_snoc (s : σ) (es : List ε) (e : ε) :
    serve step s (es ++ [e]) =
      ((serve step s es).1 ++ [(step (serve step s es).2 e).1], (step (serve step s es).2 e).2) :=
  serve_append s es [e]

/-- Machines whose steps keep states related, with related answers, answer alike. -/
theorem serve_related {R : σ → τ → Prop} {Q : ρ → ρ' → Prop}
    (steps : ∀ s t e, R s t → Q (step s e).1 (step' t e).1 ∧ R (step s e).2 (step' t e).2)
    {s : σ} {t : τ} (related : R s t) (es : List ε) :
    List.Forall₂ Q (serve step s es).1 (serve step' t es).1 ∧
      R (serve step s es).2 (serve step' t es).2 := by
  induction es generalizing s t with
  | nil => exact ⟨.nil, related⟩
  | cons e es ih =>
    obtain ⟨alike, next⟩ := steps s t e related
    obtain ⟨rest, final⟩ := ih next
    exact ⟨.cons alike rest, final⟩

end E6irc.Base
