import Mathlib

/-!
# Shard types and their thresholds

`ShardType` (`Shortener.Shared/Services/ZookeeperService.cs`, lines 19–25), the
thresholds of `Shortener.Shared/Constants.cs`, and the two places of the backend
that pick a type: `ShardService.Initialize` from the largest row id, and
`UrlService.Create` after an insert.
-/

namespace Shortener.Shard

/-- `ShardType`. -/
inductive ShardType
  | uninitialized
  | readOnly
  | readWrite
  | writeUrlsOnly
  deriving DecidableEq, Repr

/-- `Constants.ThresholdForNewUrls`. -/
def thresholdForNewUrls : ℤ := 9500000

/-- `Constants.ThresholdForNewUsers`. -/
def thresholdForNewUsers : ℤ := 9000000

/-- The type `ShardService.Initialize` starts with (lines 68–80 of
    `Shortener.GrpcBackend/Services/ShardService.cs`); `maxId` is `GetMaxId`, which
    is null on an empty table. -/
def initialType (maxId : Option ℤ) : ShardType :=
  match maxId with
  | none => .readWrite
  | some maxId =>
    if maxId < thresholdForNewUsers then .readWrite
    else if maxId < thresholdForNewUrls then .writeUrlsOnly
    else .readOnly

/-- The type change `UrlService.Create` enqueues after inserting row `id`
    (lines 63–73 of `Shortener.GrpcBackend/Services/UrlService.cs`). -/
def thresholdChange (type : ShardType) (id : ℤ) : Option ShardType :=
  if id ≥ thresholdForNewUsers then
    if type = .readWrite then some .writeUrlsOnly
    else if id ≥ thresholdForNewUrls then some .readOnly
    else none
  else none

end Shortener.Shard
