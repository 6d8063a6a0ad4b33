import Mathlib.Tactic

/-!
# Exceptions

What a call can throw: an `AppException` with its status and field errors, which the controllers
turn into an error envelope, a database failure, the `ValueError` of `password_hash`, the
`TypeError` of a return value that is not of its type, or a `RuntimeException`.
-/

namespace SlimStarter

namespace HttpStatus

def ok : ℕ := 200
def created : ℕ := 201
def accepted : ℕ := 202
def badRequest : ℕ := 400
def unauthorized : ℕ := 401
def forbidden : ℕ := 403
def notFound : ℕ := 404
def conflict : ℕ := 409
def internalServerError : ℕ := 500
def serviceUnavailable : ℕ := 503

end HttpStatus

/-- `AppException` and its subclasses; `errors` is empty outside `ValidationException`. -/
structure AppException where
  message : String
  httpStatus : ℕ
  errors : List (String × String)
deriving DecidableEq, Repr

inductive Failure where
  | app (e : AppException)
  | database
  | valueError
  | typeError
  | runtime (message : String)
deriving DecidableEq, Repr

namespace Failure

/-- `new AppException($message, $httpStatus)`. -/
def appException (message : String) (httpStatus : ℕ) : Failure := .app ⟨message, httpStatus, []⟩

/-- `new ValidationException($message, $errors)`. -/
def validation (message : String) (errors : List (String × String)) : Failure :=
  .app ⟨message, HttpStatus.badRequest, errors⟩

/-- `new NotFoundException($message)`. -/
def notFoundException (message : String) : Failure := .app ⟨message, HttpStatus.notFound, []⟩

end Failure

end SlimStarter
