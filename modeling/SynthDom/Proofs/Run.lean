/-!
# Runs

A run carries out instructions one after the other, each on the state that the ones before it leave.
What an instruction may do to a state is a relation, so a run can say more than where it leads: with
a relation that also demands something of the state an instruction meets, it says this of every
instruction of the run at its own state.

* `Run step is x z`: the instructions `is` lead from `x` to `z`.
* `Run.append`, `Run.map`: runs follow each other, and take place inside larger states.
* `Run.split`: a run is taken apart at one of its instructions.
* `Run.foldlM_eq_ok`: a run of a function is a fold.
-/

namespace SynthDom

variable {ι κ σ τ : Type}

/-- The instructions, carried out in order, lead from the first state to the second. -/
inductive Run (step : ι → σ → σ → Prop) : List ι → σ → σ → Prop
  /-- Nothing is done. -/
  | nil (x : σ) : Run step [] x x
  /-- One instruction, and the others from where it leads. -/
  | cons {i : ι} {is : List ι} {x y z : σ} :
      step i x y → Run step is y z → Run step (i :: is) x z

namespace Run

variable {step : ι → σ → σ → Prop} {is js : List ι} {x y z : σ}

theorem single {i : ι} (h : step i x y) : Run step [i] x y := .cons h (.nil y)

/-- Runs follow each other. -/
theorem append (h : Run step is x y) (h' : Run step js y z) : Run step (is ++ js) x z := by
  induction h with
  | nil _ => exact h'
  | cons hs _ ih => exact .cons hs (ih h')

/-- A run of parts is a run of the wholes they are parts of, if a step of a part is one of its
whole. -/
theorem map {step' : κ → τ → τ → Prop} {f : ι → κ} {g : σ → τ}
    (hstep : ∀ i x y, step i x y → step' (f i) (g x) (g y)) (h : Run step is x y) :
    Run step' (is.map f) (g x) (g y) := by
  induction h with
  | nil x => exact .nil (g x)
  | cons hs _ ih => exact .cons (hstep _ _ _ hs) ih

/-- A run is one of a step that allows more. -/
theorem imp {step' : ι → σ → σ → Prop} (hstep : ∀ i x y, step i x y → step' i x y)
    (h : Run step is x y) : Run step' is x y := by
  induction h with
  | nil x => exact .nil x
  | cons hs _ ih => exact .cons (hstep _ _ _ hs) ih

/-- Every instruction of a run is a step from where those before it lead. -/
theorem split {i : ι} (h : Run step (is ++ i :: js) x z) :
    ∃ y y', Run step is x y ∧ step i y y' ∧ Run step js y' z := by
  induction is generalizing x with
  | nil =>
    cases h with
    | cons hs h => exact ⟨x, _, .nil x, hs, h⟩
  | cons j is ih =>
    cases h with
    | cons hs h =>
      obtain ⟨y, y', hbefore, hstep, hafter⟩ := ih h
      exact ⟨y, y', .cons hs hbefore, hstep, hafter⟩

/-- Where each instruction leads to one state only, so does a run. -/
theorem unique (hstep : ∀ i x y z, step i x y → step i x z → y = z) (h : Run step is x y)
    (h' : Run step is x z) : y = z := by
  induction h with
  | nil _ => cases h'; rfl
  | cons hs _ ih =>
    cases h' with
    | cons hs' h' =>
      cases hstep _ _ _ _ hs hs'
      exact ih h'

/-- Doing nothing leads nowhere. -/
theorem eq_of_nil (h : Run step [] x y) : x = y := by
  cases h
  rfl

/-- A run of steps that are those of a function is what the function makes of the first state. -/
theorem foldlM_eq_ok {ε : Type} {f : σ → ι → Except ε σ}
    (hstep : ∀ i x y, step i x y → f x i = .ok y) (h : Run step is x z) :
    is.foldlM f x = .ok z := by
  induction h with
  | nil _ => rfl
  | cons hs _ ih =>
    rw [List.foldlM_cons, hstep _ _ _ hs]
    exact ih

end Run

end SynthDom
