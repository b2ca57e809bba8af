import Mathlib.Data.Int.Notation

/-! The `status_t` values that the modelled functions return. -/
namespace Binder

/-- `other` carries a status chosen by code outside the library. -/
inductive Status
  | ok
  | noMemory
  | invalidOperation
  | badValue
  | badType
  | permissionDenied
  | notEnoughData
  | wouldBlock
  | deadObject
  | failedTransaction
  | unexpectedNull
  | fdsNotAllowed
  | unknownTransaction
  | unknownError
  | other (code : ℤ)
  deriving DecidableEq, Repr

end Binder
