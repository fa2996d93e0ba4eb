import Mathlib.Logic.Basic

/-! Runs of a deterministic machine under a condition on its steps.
`Reaches start step cond` is the set of states reached from a start state by
steps that each meet `cond` in the state they are taken from. An invariant is
proved once per step and transported to every reached state by
`Reaches.invariant`. -/

namespace Infera
variable {σ ι : Type*}

inductive Reaches (start : σ → Prop) (step : σ → ι → σ) (cond : σ → ι → Prop) : σ → Prop
  | start {s : σ} (h : start s) : Reaches start step cond s
  | next {s : σ} (i : ι) (before : Reaches start step cond s) (meets : cond s i) :
      Reaches start step cond (step s i)

/-- Each input of the run meets the condition in the state it is taken from. -/
def Along (step : σ → ι → σ) (cond : σ → ι → Prop) : List ι → σ → Prop
  | [], _ => True
  | i :: rest, s => cond s i ∧ Along step cond rest (step s i)

instance Along.decide (step : σ → ι → σ) (cond : σ → ι → Prop) [∀ s i, Decidable (cond s i)] :
    (inputs : List ι) → (s : σ) → Decidable (Along step cond inputs s)
  | [], _ => .isTrue trivial
  | i :: rest, s =>
    have := Along.decide step cond rest (step s i)
    inferInstanceAs (Decidable (cond s i ∧ Along step cond rest (step s i)))

namespace Reaches
variable {start : σ → Prop} {step : σ → ι → σ} {cond : σ → ι → Prop} (inputs : List ι)

theorem invariant {Inv : σ → Prop} (base : ∀ s, start s → Inv s)
    (keep : ∀ s i, Inv s → cond s i → Inv (step s i)) {s : σ}
    (reached : Reaches start step cond s) : Inv s := by
  induction reached with
  | start h => exact base _ h
  | next i _ meets ih => exact keep _ i ih meets

theorem run : ∀ {s : σ}, Reaches start step cond s →
      (∀ pre i post, inputs = pre ++ i :: post → cond (pre.foldl step s) i) →
      Reaches start step cond (inputs.foldl step s) := by
  induction inputs with
  | nil => exact fun reached _ => reached
  | cons i rest ih =>
    intro s reached meets
    refine ih (.next i reached (meets [] i rest rfl)) ?_
    intro pre j post split
    exact meets (i :: pre) j post (by rw [split, List.cons_append])

theorem along : ∀ {s : σ}, Reaches start step cond s → Along step cond inputs s →
      Reaches start step cond (inputs.foldl step s) := by
  induction inputs with
  | nil => exact fun reached _ => reached
  | cons i rest ih =>
    intro s reached meets
    exact ih (.next i reached meets.1) meets.2

theorem unconditional {s : σ} (h : start s) :
    Reaches start step (fun _ _ => True) (inputs.foldl step s) :=
  run inputs (.start h) fun _ _ _ _ => trivial

end Reaches
end Infera
