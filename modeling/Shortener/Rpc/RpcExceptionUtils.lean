import Shortener.DotNet.Dictionary
import Shortener.Rpc.Interceptor

/-!
# Errors across gRPC

The statuses that `RpcExceptionUtils` creates and `RpcExceptionUtils.Parse`
(`Shortener.Shared/Exceptions/RpcExceptionUtils.cs`), the exceptions that `ServerGrpcInterceptor`
names (`Shortener.BackendShared/Middleware/ServerGrpcInterceptor.cs`, lines 28–72), and
`HandleResponse` of `ClientGrpcInterceptor` (`Shortener.Shared/Middleware/ClientGrpcInterceptor.cs`,
lines 26–52). A status reaches the client as it was packed.

* `unaryServerHandler_ofExn`: the interceptor is the one of `Rpc.Interceptor`.
* `handleResponse_keepsMeaning_iff`: which exceptions the client sees as what they were.
-/

namespace Shortener.Rpc

open Shortener.DotNet

/-! ## What is created -/

/-- The calls of `RpcExceptionUtils`; `none` is a message that is left out. -/
inductive Created
  | notFound (resourceName : String) (message : Option String)
  | resourceExhausted (subject : String) (message : Option String)
  | invalidArgument (field : String) (message : Option String)
  | outOfRange (field : String) (message : Option String)
  | unauthenticated (metadata : Dictionary String String) (message : Option String)
  | permissionDenied (metadata : Dictionary String String) (message : Option String)
  | failedPrecondition (source : ExceptionSource) (message : String)
  | unavailable (source : ExceptionSource) (message : String)
  | unknown (source : ExceptionSource) (message : String)

/-- The status of the `RpcException`. To `Add` the entries of a dictionary to a new map never
    throws. -/
def Created.status : Created → Status
  | notFound resourceName message =>
    ⟨.notFound, message.getD s!"{resourceName} not found", .resourceInfo resourceName⟩
  | resourceExhausted subject message =>
    ⟨.resourceExhausted, message.getD s!"{subject} exhausted", .quotaFailure subject⟩
  | invalidArgument field message =>
    ⟨.invalidArgument, message.getD s!"Invalid {field}", .badRequest field⟩
  | outOfRange field message =>
    ⟨.outOfRange, message.getD s!"Invalid {field}", .badRequest field⟩
  | unauthenticated metadata message =>
    ⟨.unauthenticated, message.getD "Unauthenticated", .errorInfo metadata.entries⟩
  | permissionDenied metadata message =>
    ⟨.permissionDenied, message.getD "Permission denied", .errorInfo metadata.entries⟩
  | failedPrecondition source message =>
    ⟨.failedPrecondition, message, .preconditionFailure source.toString⟩
  | unavailable source message => ⟨.unavailable, message, .debugInfo source.toString⟩
  | unknown source message => ⟨.unknown, message, .debugInfo source.toString⟩

/-- The exceptions that `UnaryServerHandler` names, and those of `RpcExceptionUtils`, which it
    throws again. The text is `ex.ToString()`, the message `ex.Message`. -/
inductive ServerException
  | postgres (text : String)
  /-- an `NpgsqlException` that is no `PostgresException` -/
  | npgsql (text : String)
  | redisCommand (text : String)
  | redisTimeout (text : String)
  | redisConnection (text : String)
  /-- any other `RedisException` -/
  | redis (text : String)
  | keeper (text : String)
  | argumentNull (paramName : Option String) (message : String)
  | argumentOutOfRange (paramName : Option String) (message : String)
  /-- any other `ArgumentException` -/
  | argument (paramName : Option String) (message : String)
  | created (created : Created)

/-- The `catch` clauses of `UnaryServerHandler`: the call of `RpcExceptionUtils` whose exception is
    thrown. -/
def ServerException.handled : ServerException → Created
  | postgres text => .failedPrecondition .database text
  | npgsql text => .unknown .database text
  | redisCommand text => .unknown .redis text
  | redisTimeout text => .unavailable .redis text
  | redisConnection text => .unavailable .redis text
  | redis text => .unknown .redis text
  | keeper text => .unknown .zookeeper text
  | argumentNull paramName message => .invalidArgument (paramName.getD "unknown") (some message)
  | argumentOutOfRange paramName message => .outOfRange (paramName.getD "unknown") (some message)
  | argument paramName message => .invalidArgument (paramName.getD "unknown") (some message)
  | created c => c

/-! ## `Parse` -/

/-- An `RpcException` at the client: whether its `StatusCode` is `Unavailable`, and
    `GetRpcStatus()`. -/
structure RpcException where
  isUnavailable : Bool
  rpcStatus : Option Status
  deriving DecidableEq, Repr

/-- `ToRpcException`. -/
def toRpcException (status : Status) : RpcException := ⟨status.code = .unavailable, some status⟩

/-- What `Parse` returns. -/
inductive ClientException
  | databaseError (message : String)
  | redisError (message : String)
  | zookeeperError (message : String)
  | grpcConnection (message : String)
  | redisConnection (message : String)
  | notFound (resourceName message : String)
  | resourceExhausted (subject message : String)
  | unauthenticated (metadata : Dictionary String String) (message : String)
  | permissionDenied (metadata : Dictionary String String) (message : String)
  | unknown (message : String)
  | argument (message : String) (paramName : Option String)
  | argumentOutOfRange (message : String) (paramName : Option String)

/-- What `Parse` throws. -/
inductive ParseException
  /-- There is no detail of the type that the code asks for. -/
  | nullReference
  /-- `Enum.Parse`, or a key that comes twice -/
  | argument
  | argumentOutOfRange (paramName : String)
  deriving DecidableEq, Repr

/-- `Enum.Parse<ExceptionSource>` of a name; of a number no constructor makes use. -/
def ExceptionSource.parse (text : String) : Except ParseException ExceptionSource :=
  if text = "Database" then .ok .database
  else if text = "Redis" then .ok .redis
  else if text = "Zookeeper" then .ok .zookeeper
  else .error .argument

/-- `Metadata.ToDictionary()`. -/
def toDictionary (metadata : List (Σ _ : String, String)) :
    Except ParseException (Dictionary String String) :=
  match Dictionary.ofEntries metadata with
  | .ret d => .ok d
  | _ => .error .argument

/-- `Parse`. -/
def parse (exception : RpcException) : Except ParseException ClientException :=
  match exception.rpcStatus with
  | none =>
    if exception.isUnavailable then .ok (.grpcConnection "Backend connection error")
    else .ok (.unknown "Unknown error")
  | some status =>
    match status.code, status.detail with
    | .notFound, .resourceInfo resourceName => .ok (.notFound resourceName status.message)
    | .resourceExhausted, .quotaFailure subject => .ok (.resourceExhausted subject status.message)
    | .invalidArgument, .badRequest field => .ok (.argument status.message (some field))
    -- the field is read and dropped
    | .outOfRange, .badRequest _ => .ok (.argumentOutOfRange status.message none)
    | .unauthenticated, .errorInfo metadata => do
      let metadata ← toDictionary metadata
      .ok (.unauthenticated metadata status.message)
    | .permissionDenied, .errorInfo metadata => do
      let metadata ← toDictionary metadata
      .ok (.permissionDenied metadata status.message)
    | .failedPrecondition, .preconditionFailure type => do
      let _ ← ExceptionSource.parse type
      .ok (.databaseError "Database logic error")
    | .unavailable, .debugInfo detail => do
      match ← ExceptionSource.parse detail with
      | .redis => .ok (.redisConnection "Cache connection error")
      | .database => .error (.argumentOutOfRange "source")
      | .zookeeper => .error (.argumentOutOfRange "source")
    | .unknown, .debugInfo detail => do
      match ← ExceptionSource.parse detail with
      | .database => .ok (.databaseError "Database error")
      | .redis => .ok (.redisError "Cache error")
      | .zookeeper => .ok (.redisError "ZooKeeper error")
    | .other _, _ => .ok (.unknown "Unknown error")
    | _, _ => .error .nullReference

/-- What awaiting a call throws at the client. -/
inductive Thrown
  | parsed (exception : ClientException)
  /-- `Parse` itself throws. -/
  | byParse (exception : ParseException)

/-- `HandleResponse`. -/
def handleResponse {α : Type} (t : Except RpcException α) : Except Thrown α :=
  match t with
  | .ok response => .ok response
  | .error ex =>
    match parse ex with
    | .ok exception => .error (.parsed exception)
    | .error exception => .error (.byParse exception)

/-! ## What an error means -/

/-- The category of an error with what it carries; of a metadata map, the values of its keys. -/
inductive Meaning
  | database
  | redis
  | zookeeper
  | notFound (resourceName : String)
  | resourceExhausted (subject : String)
  | argument (field : String)
  | unauthenticated (metadata : String → Option String)
  | permissionDenied (metadata : String → Option String)

/-- What a source says of an error. -/
def ExceptionSource.meaning : ExceptionSource → Meaning
  | database => .database
  | redis => .redis
  | zookeeper => .zookeeper

/-- What a constructor of `RpcExceptionUtils` says. -/
def Created.meaning : Created → Meaning
  | notFound resourceName _ => .notFound resourceName
  | resourceExhausted subject _ => .resourceExhausted subject
  | invalidArgument field _ => .argument field
  | outOfRange field _ => .argument field
  | unauthenticated metadata _ => .unauthenticated metadata.lookup
  | permissionDenied metadata _ => .permissionDenied metadata.lookup
  | failedPrecondition source _ => source.meaning
  | unavailable source _ => source.meaning
  | unknown source _ => source.meaning

/-- What an exception of the backend says. -/
def ServerException.meaning : ServerException → Meaning
  | postgres _ => .database
  | npgsql _ => .database
  | redisCommand _ => .redis
  | redisTimeout _ => .redis
  | redisConnection _ => .redis
  | redis _ => .redis
  | keeper _ => .zookeeper
  | argumentNull paramName _ => .argument (paramName.getD "unknown")
  | argumentOutOfRange paramName _ => .argument (paramName.getD "unknown")
  | argument paramName _ => .argument (paramName.getD "unknown")
  | created c => c.meaning

/-- What an exception of the frontend says, if it is one of `Parse`. -/
def ClientException.meaning : ClientException → Option Meaning
  | databaseError _ => some .database
  | redisError _ => some .redis
  | redisConnection _ => some .redis
  | zookeeperError _ => some .zookeeper
  | grpcConnection _ => none
  | unknown _ => none
  | notFound resourceName _ => some (.notFound resourceName)
  | resourceExhausted subject _ => some (.resourceExhausted subject)
  | unauthenticated metadata _ => some (.unauthenticated metadata.lookup)
  | permissionDenied metadata _ => some (.permissionDenied metadata.lookup)
  | argument _ paramName => paramName.map .argument
  | argumentOutOfRange _ paramName => paramName.map .argument

/-- `Parse` returns an exception that means the same. -/
def ParsesTo (status : Status) (meaning : Meaning) : Prop :=
  ∃ exception, parse (toRpcException status) = .ok exception ∧ exception.meaning = some meaning

/-- The client sees the exception as what it was. -/
def KeepsMeaning (α : Type) (e : ServerException) : Prop :=
  ∃ exception, handleResponse (.error (toRpcException e.handled.status) : Except RpcException α) =
    .error (.parsed exception) ∧ exception.meaning = some e.meaning

/-- The calls of `RpcExceptionUtils` that `Parse` understands. -/
def Created.Understood : Created → Prop
  | outOfRange _ _ => False
  | failedPrecondition source _ => source = .database
  | unavailable source _ => source = .redis
  | unknown source _ => source ≠ .zookeeper
  | _ => True

/-- `Parse` finds the meaning of the exception again. -/
def ServerException.Understood : ServerException → Prop
  | keeper _ => False
  | argumentOutOfRange _ _ => False
  | created c => c.Understood
  | _ => True

variable {α : Type} {source : ExceptionSource} {metadata : Dictionary String String}

/-! ## The interceptor -/

/-- The exceptions of `Rpc.Interceptor` among those that are named. -/
def ofExn (render : Exn → String) : Exn → Option ServerException
  | .postgres sqlState message => some (.postgres (render (.postgres sqlState message)))
  | .argumentOutOfRange paramName message =>
    some (.argumentOutOfRange (some paramName) (argumentMessage message paramName))
  | .argument message (some paramName) =>
    some (.argument (some paramName) (argumentMessage message paramName))
  | .argument message none => some (.argument none message)
  | _ => none

theorem unaryServerHandler_ofExn {render : Exn → String} {e : Exn} {server : ServerException}
    (h : ofExn render e = some server) :
    unaryServerHandler render (.throw e : Exec α) = .throw (.rpc server.handled.status) := by
  unfold ofExn at h
  split at h
  all_goals first
    | (obtain rfl := Option.some.inj h; rfl)
    | cases h

theorem meaning_handled (e : ServerException) : e.handled.meaning = e.meaning := by
  cases e <;> rfl

theorem understood_handled (e : ServerException) : e.handled.Understood ↔ e.Understood := by
  cases e <;> simp [ServerException.handled, ServerException.Understood, Created.Understood]

/-! ## From the status to the client -/

theorem ExceptionSource.parse_toString (source : ExceptionSource) :
    ExceptionSource.parse source.toString = .ok source := by
  cases source <;> simp [ExceptionSource.parse, ExceptionSource.toString]

/-- The map at the client has the values of the map at the server. -/
theorem toDictionary_entries (metadata : Dictionary String String) :
    toDictionary metadata.entries = .ok metadata.reversed := by
  rw [toDictionary, Dictionary.ofEntries_entries]

theorem parsesTo_iff {status : Status} {exception : ClientException} {meaning : Meaning}
    (h : parse (toRpcException status) = .ok exception) :
    ParsesTo status meaning ↔ exception.meaning = some meaning := by
  constructor
  · rintro ⟨exception', hparse, hmeaning⟩
    obtain rfl := Except.ok.inj (h.symm.trans hparse)
    exact hmeaning
  · exact fun hmeaning => ⟨exception, h, hmeaning⟩

theorem not_parsesTo {status : Status} {error : ParseException} {meaning : Meaning}
    (h : parse (toRpcException status) = .error error) : ¬ ParsesTo status meaning := by
  rintro ⟨exception, hparse, -⟩
  cases h.symm.trans hparse

theorem parsesTo_created_iff (c : Created) : ParsesTo c.status c.meaning ↔ c.Understood := by
  cases c with
  | notFound resourceName message => exact iff_of_true ⟨_, rfl, rfl⟩ trivial
  | resourceExhausted subject message => exact iff_of_true ⟨_, rfl, rfl⟩ trivial
  | invalidArgument field message => exact iff_of_true ⟨_, rfl, rfl⟩ trivial
  | outOfRange field message =>
    rw [parsesTo_iff rfl]
    simp [ClientException.meaning, Created.Understood]
  | unauthenticated metadata message =>
    have hparse : parse (toRpcException (Created.unauthenticated metadata message).status) =
        .ok (.unauthenticated metadata.reversed (message.getD "Unauthenticated")) := by
      simp only [parse, toRpcException, Created.status, toDictionary_entries]
      rfl
    refine iff_of_true ((parsesTo_iff hparse).mpr ?_) trivial
    simp only [ClientException.meaning, Created.meaning, Dictionary.lookup_reversed]
  | permissionDenied metadata message =>
    have hparse : parse (toRpcException (Created.permissionDenied metadata message).status) =
        .ok (.permissionDenied metadata.reversed (message.getD "Permission denied")) := by
      simp only [parse, toRpcException, Created.status, toDictionary_entries]
      rfl
    refine iff_of_true ((parsesTo_iff hparse).mpr ?_) trivial
    simp only [ClientException.meaning, Created.meaning, Dictionary.lookup_reversed]
  | failedPrecondition source message =>
    -- whatever the source is
    have hparse : parse (toRpcException (Created.failedPrecondition source message).status) =
        .ok (.databaseError "Database logic error") := by
      simp only [parse, toRpcException, Created.status, ExceptionSource.parse_toString]
      rfl
    rw [parsesTo_iff hparse]
    cases source <;>
      simp [ClientException.meaning, Created.meaning, ExceptionSource.meaning, Created.Understood]
  | unavailable source message =>
    have hparse : ∀ source, parse (toRpcException (Created.unavailable source message).status) =
        if source = .redis then .ok (.redisConnection "Cache connection error")
        else .error (.argumentOutOfRange "source") := by
      intro source
      simp only [parse, toRpcException, Created.status, ExceptionSource.parse_toString]
      cases source <;> rfl
    cases source with
    | redis => exact iff_of_true ((parsesTo_iff (hparse .redis)).mpr rfl) rfl
    | database => exact iff_of_false (not_parsesTo (hparse .database)) (by simp [Created.Understood])
    | zookeeper => exact iff_of_false (not_parsesTo (hparse .zookeeper)) (by simp [Created.Understood])
  | unknown source message =>
    have hparse : ∀ source, parse (toRpcException (Created.unknown source message).status) =
        .ok (match source with
          | .database => .databaseError "Database error"
          | .redis => .redisError "Cache error"
          | .zookeeper => .redisError "ZooKeeper error") := by
      intro source
      simp only [parse, toRpcException, Created.status, ExceptionSource.parse_toString]
      cases source <;> rfl
    rw [parsesTo_iff (hparse source)]
    cases source <;>
      simp [ClientException.meaning, Created.meaning, ExceptionSource.meaning, Created.Understood]

theorem handleResponse_eq_parsed_iff {status : Status} {exception : ClientException} :
    handleResponse (.error (toRpcException status) : Except RpcException α) =
      .error (.parsed exception) ↔ parse (toRpcException status) = .ok exception := by
  cases h : parse (toRpcException status) <;> simp [handleResponse, h]

/-- **Errors keep their meaning exactly if `Parse` understands them.** -/
theorem handleResponse_keepsMeaning_iff (α : Type) (e : ServerException) :
    KeepsMeaning α e ↔ e.Understood := by
  rw [← understood_handled, ← parsesTo_created_iff, meaning_handled]
  exact exists_congr fun exception => and_congr_left' handleResponse_eq_parsed_iff

/-- A ZooKeeper error reaches the client as an error of Redis. -/
theorem keeper_becomes_redisError :
    handleResponse (.error (toRpcException (ServerException.keeper "").handled.status) :
        Except RpcException Unit) = .error (.parsed (.redisError "ZooKeeper error")) ∧
      ¬ ∀ (α : Type) (e : ServerException), KeepsMeaning α e := by
  constructor
  · rfl
  · intro h
    obtain ⟨exception, hresponse, hmeaning⟩ := h Unit (.keeper "")
    obtain rfl : ClientException.redisError "ZooKeeper error" = exception :=
      Thrown.parsed.inj (Except.error.inj hresponse)
    cases hmeaning

end Shortener.Rpc
