import Shortener.DotNet.Exec

/-!
# Exceptions on their way to the client

`UnaryServerHandler` of `ServerGrpcInterceptor`
(`Shortener.BackendShared/Middleware/ServerGrpcInterceptor.cs`, lines 18–91) with the
statuses of `RpcExceptionUtils.cs` it throws. An exception that is no `RpcException` reaches
gRPC as it is, which reports it as `Unknown` without a status of the application.

* `unaryServerHandler_classified_iff`: a call ends with a value or a status unless its
  handler throws an exception of a type the interceptor does not name.
-/

namespace Shortener.Rpc

open Shortener.DotNet

/-! ## Statuses -/

/-- `ExceptionSource`. -/
inductive ExceptionSource
  | database
  | redis
  | zookeeper
  deriving DecidableEq, Repr

/-- `source.ToString()`. -/
def ExceptionSource.toString : ExceptionSource → String
  | database => "Database"
  | redis => "Redis"
  | zookeeper => "Zookeeper"

/-- `RpcExceptionUtils.InvalidArgument`. -/
def invalidArgument (field message : String) : Exn :=
  .rpc ⟨.invalidArgument, message, .badRequest field⟩

/-- `RpcExceptionUtils.OutOfRange`. -/
def outOfRange (field message : String) : Exn :=
  .rpc ⟨.outOfRange, message, .badRequest field⟩

/-- `RpcExceptionUtils.FailedPrecondition`. -/
def failedPrecondition (source : ExceptionSource) (message : String) : Exn :=
  .rpc ⟨.failedPrecondition, message, .preconditionFailure source.toString⟩

/-! ## The interceptor -/

/-- `ex.Message` of an `ArgumentException`, which names the parameter after the text. -/
def argumentMessage (message paramName : String) : String :=
  if paramName = "" then message else message ++ " (Parameter '" ++ paramName ++ "')"

variable {α : Type}

/-- `UnaryServerHandler`; `render` is `ex.ToString()`. -/
def unaryServerHandler (render : Exn → String) (continuation : Exec α) : Exec α :=
  match continuation with
  | .throw (.postgres sqlState message) =>
    .throw (failedPrecondition .database (render (.postgres sqlState message)))
  | .throw (.argumentOutOfRange paramName message) =>
    .throw (outOfRange paramName (argumentMessage message paramName))
  | .throw (.argument message (some paramName)) =>
    .throw (invalidArgument paramName (argumentMessage message paramName))
  | .throw (.argument message none) => .throw (invalidArgument "unknown" message)
  | .throw e => .throw e
  | .ret a => .ret a
  | .diverge => .diverge

/-- The exceptions for which the interceptor has a `catch` of their type. -/
def IsNamed : Exn → Prop
  | .format _ => False
  | .json _ => False
  | .graphQL _ => False
  | _ => True

/-- What the client gets is a value or a status of the application. -/
def Classified (reply : Exec α) : Prop := ∀ e, reply = .throw e → ∃ status, e = .rpc status

theorem classified_throw_iff {e : Exn} :
    Classified (.throw e : Exec α) ↔ ∃ status, e = .rpc status := by
  unfold Classified
  simp

theorem unaryServerHandler_throw_classified_iff (render : Exn → String) (e : Exn) :
    Classified (unaryServerHandler render (.throw e : Exec α)) ↔ IsNamed e := by
  cases e with
  | argument message paramName =>
    cases paramName <;>
      simp [unaryServerHandler, classified_throw_iff, invalidArgument, IsNamed]
  | argumentOutOfRange paramName message =>
    simp [unaryServerHandler, classified_throw_iff, outOfRange, IsNamed]
  | format message => simp [unaryServerHandler, classified_throw_iff, IsNamed]
  | json message => simp [unaryServerHandler, classified_throw_iff, IsNamed]
  | postgres sqlState message =>
    simp [unaryServerHandler, classified_throw_iff, failedPrecondition, IsNamed]
  | rpc status => simp [unaryServerHandler, classified_throw_iff, IsNamed]
  | graphQL message => simp [unaryServerHandler, classified_throw_iff, IsNamed]

/-- A call whose handler throws an exception the interceptor does not name ends without a
    status, and no other call does. -/
theorem unaryServerHandler_classified_iff (render : Exn → String) (continuation : Exec α) :
    Classified (unaryServerHandler render continuation) ↔
      ∀ e, continuation = .throw e → IsNamed e := by
  cases continuation with
  | ret a => simp [unaryServerHandler, Classified]
  | diverge => simp [unaryServerHandler, Classified]
  | throw e =>
    rw [unaryServerHandler_throw_classified_iff]
    simp

end Shortener.Rpc
