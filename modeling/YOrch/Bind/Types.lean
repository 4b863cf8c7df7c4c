/-
  YOrch.Bind.Types — the C++ types binding and planning look at.

  Binding decides by comparing types: a parameter against a payload, a raw
  result against `void`, `step_result` and `task_result<T>`.  `CppType` keeps
  the part of a type those comparisons see; every other class is an `object`
  with an identity.
-/
import Mathlib.Tactic.Common

namespace YOrch

/-- The cv-qualifications other than none. -/
inductive CvQualifier where
  | const
  | volatile
  | constVolatile
  deriving Repr, DecidableEq

inductive CppType where
  | void
  | object (id : Nat)
  | stepResult
  | taskResult (value : CppType)
  | directOut (payload : CppType)
  | referenceWrapper (type : CppType)
  | cv (qualifier : CvQualifier) (type : CppType)
  | lvalueRef (type : CppType)
  | rvalueRef (type : CppType)
  deriving Repr, DecidableEq

namespace CppType

/-! ## §1. `<type_traits>`. -/

/-- `std::is_reference_v`. -/
def isReference : CppType → Bool
  | .lvalueRef _ | .rvalueRef _ => true
  | _ => false

/-- `std::remove_reference_t`. -/
def removeReference : CppType → CppType
  | .lvalueRef t | .rvalueRef t => t
  | t => t

/-- `std::remove_cv_t`. -/
def removeCv : CppType → CppType
  | .cv _ t => t.removeCv
  | t => t

/-- `std::remove_cvref_t`. -/
def removeCvref (t : CppType) : CppType := t.removeReference.removeCv

/-- `std::is_void_v`, which looks through cv-qualifiers. -/
def isVoid (t : CppType) : Bool := t.removeCv == .void

theorem isVoid_void : isVoid .void = true := rfl

/-- `std::is_const_v`. -/
def isConst : CppType → Bool
  | .cv .const _ | .cv .constVolatile _ => true
  | .cv .volatile t => t.isConst
  | _ => false

/-- `is_task_result_v`. -/
def isTaskResult (t : CppType) : Bool :=
  match t.removeCvref with
  | .taskResult _ => true
  | _ => false

/-- `const T&`. -/
def constRef (t : CppType) : CppType := .lvalueRef (.cv .const t)

@[simp] theorem removeCv_removeCv (t : CppType) : t.removeCv.removeCv = t.removeCv := by
  induction t with
  | cv q t ih => exact ih
  | _ => rfl

theorem removeCv_ne_cv (t : CppType) (q : CvQualifier) (t' : CppType) : t.removeCv ≠ .cv q t' := by
  induction t with
  | cv _ t ih => exact ih
  | _ => nofun

/-- A type without cv-qualifiers is not const. -/
theorem isConst_of_unqualified {t : CppType} (h : t.removeCv = t) : t.isConst = false := by
  cases t with
  | cv q t => exact absurd h (removeCv_ne_cv (.cv q t) q t)
  | _ => rfl

end CppType

end YOrch
