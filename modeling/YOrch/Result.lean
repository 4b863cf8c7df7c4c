/-
  YOrch.Result — step statuses and the results that carry them.
-/
import Mathlib.Tactic.Common

namespace YOrch

/-- `step_status`. -/
inductive StepStatus where
  | success
  | failure
  | retry
  | abortBranch
  | abortExecution
  deriving Repr, DecidableEq

/-- `step_result`: control flow only, no value. -/
structure StepResult where
  status : StepStatus := .success
  deriving Repr, DecidableEq

namespace StepResult

def success : StepResult := ⟨.success⟩
def failure : StepResult := ⟨.failure⟩
def retry : StepResult := ⟨.retry⟩
def abortBranch : StepResult := ⟨.abortBranch⟩
def abortExecution : StepResult := ⟨.abortExecution⟩

/-- `step_result::ok`. -/
def ok (step : StepResult) : Bool := step.status == .success

@[simp] theorem ok_success : success.ok = true := rfl

theorem ok_iff {step : StepResult} : step.ok = true ↔ step = success := by
  rcases step with ⟨_ | _ | _ | _ | _⟩ <;> decide

/-- The results a parent does not consume: they end the whole run. -/
def Stops (step : StepResult) : Prop :=
  step.status ≠ .success ∧ step.status ≠ .abortBranch

instance (step : StepResult) : Decidable step.Stops :=
  inferInstanceAs (Decidable (_ ∧ _))

theorem stops_iff {step : StepResult} :
    step.Stops ↔ step = failure ∨ step = retry ∨ step = abortExecution := by
  rcases step with ⟨_ | _ | _ | _ | _⟩ <;> decide

theorem not_stops_iff {step : StepResult} :
    ¬ step.Stops ↔ step = success ∨ step = abortBranch := by
  rcases step with ⟨_ | _ | _ | _ | _⟩ <;> decide

end StepResult

/-- `task_result<T>`: a step result that may carry a value.  The step is a
public member, so the two are independent. -/
structure TaskResult (V : Type) where
  step : StepResult
  value : Option V
  deriving Repr, DecidableEq

end YOrch
