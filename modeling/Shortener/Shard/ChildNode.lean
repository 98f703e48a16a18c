import Shortener.DotNet.Integer
import Shortener.Shard.ShardType

/-!
# The nodes of the shard registry

The path under which a replica registers, and what the frontends read from the name of the
node (`Shortener.Shared/Services/ZookeeperService.cs`, lines 124–139 and 241–250), for the node
name of `ShardService` in particular.

* `parseChildNode_ephemeralName`: they read the shard and the type that the replica wrote.
* `registeredName_decodes`: that holds of all names of nodes of the backends.
-/

namespace Shortener.Shard

open Shortener.DotNet

/-- The name of a member of the enumeration. -/
def ShardType.toString : ShardType → String
  | .uninitialized => "Uninitialized"
  | .readOnly => "ReadOnly"
  | .readWrite => "ReadWrite"
  | .writeUrlsOnly => "WriteUrlsOnly"

/-- `Enum.Parse<ShardType>` on the names. -/
def ShardType.parse (text : String) : Option ShardType :=
  if text = "Uninitialized" then some .uninitialized
  else if text = "ReadOnly" then some .readOnly
  else if text = "ReadWrite" then some .readWrite
  else if text = "WriteUrlsOnly" then some .writeUrlsOnly
  else none

theorem ShardType.parse_toString (type : ShardType) : ShardType.parse type.toString = some type := by
  cases type <;> decide

/-- `sealed record ChildNode`. -/
structure ChildNode where
  name : String
  shardId : ℤ
  shardType : ShardType
  deriving DecidableEq, Repr

/-- `ZookeeperService.GetEphemeralPath`. -/
def getEphemeralPath (parentPath : String) (shardId : ℤ) (nodeName : String)
    (shardState : ShardType) : String :=
  parentPath ++ "/" ++ ToString.toString shardId ++ "_" ++ nodeName ++ "_" ++ shardState.toString ++ "_"

/-- `ZookeeperService.ParseChildNode`, where it does not throw. -/
def parseChildNode (childName : String) : Option ChildNode :=
  match childName.toList.splitOn '_' with
  | [shardId, name, shardType, _] => do
    let shardId ← tryParseInt64 shardId
    let shardType ← ShardType.parse (String.ofList shardType)
    some ⟨String.ofList name, shardId, shardType⟩
  | _ => none

/-- The name of a node that ZooKeeper creates under `GetEphemeralPath`; it appends `suffix`. -/
def ephemeralName (shardId : ℤ) (nodeName : String) (shardState : ShardType) (suffix : String) :
    String :=
  ToString.toString shardId ++ "_" ++ nodeName ++ "_" ++ shardState.toString ++ "_" ++ suffix

theorem getEphemeralPath_append (parentPath : String) (shardId : ℤ) (nodeName : String)
    (shardState : ShardType) (suffix : String) :
    getEphemeralPath parentPath shardId nodeName shardState ++ suffix =
      parentPath ++ "/" ++ ephemeralName shardId nodeName shardState suffix := by
  simp only [getEphemeralPath, ephemeralName, String.append_assoc]

theorem parseChildNode_ephemeralName {shardId : ℤ} (hid : IsInt64 shardId) {nodeName suffix : String}
    (hname : '_' ∉ nodeName.toList) (hsuffix : '_' ∉ suffix.toList) (shardState : ShardType) :
    parseChildNode (ephemeralName shardId nodeName shardState suffix) =
      some ⟨nodeName, shardId, shardState⟩ := by
  have htype : '_' ∉ shardState.toString.toList := by
    cases shardState <;> decide
  have hlist : (ephemeralName shardId nodeName shardState suffix).toList =
      (ToString.toString shardId).toList ++ '_' :: (nodeName.toList ++ '_' ::
        (shardState.toString.toList ++ '_' :: suffix.toList)) := by
    simp [ephemeralName]
  have hsplit : (ephemeralName shardId nodeName shardState suffix).toList.splitOn '_' =
      [(ToString.toString shardId).toList, nodeName.toList, shardState.toString.toList,
        suffix.toList] := by
    rw [hlist, List.splitOn_append_cons_self_of_not_mem (underscore_not_mem_toString _),
      List.splitOn_append_cons_self_of_not_mem hname, List.splitOn_append_cons_self_of_not_mem htype,
      List.splitOn_eq_singleton hsuffix]
  simp only [parseChildNode, hsplit, tryParseInt64_toString hid, String.ofList_toList,
    ShardType.parse_toString, Option.bind_eq_bind, Option.bind_some]

/-! ## The nodes of the backends -/

/-- `_nodeName` of `ShardService`. -/
def nodeName (id : ℤ) : String := "backend" ++ ToString.toString id

/-- The name of a node is the last component of its path. -/
def lastComponent (path : String) : String :=
  String.ofList (path.toList.reverse.takeWhile (· ≠ '/')).reverse

theorem lastComponent_append {name : String} (h : '/' ∉ name.toList) (parentPath : String) :
    lastComponent (parentPath ++ "/" ++ name) = name := by
  have hlist : (parentPath ++ "/" ++ name).toList.reverse =
      name.toList.reverse ++ '/' :: parentPath.toList.reverse := by
    simp
  have hname : ∀ c ∈ name.toList.reverse, decide (c ≠ '/') = true := by
    intro c hc
    apply decide_eq_true
    rintro rfl
    exact h (List.mem_reverse.mp hc)
  rw [lastComponent, hlist, List.takeWhile_append_of_pos hname, List.takeWhile_cons_of_neg (by simp),
    List.append_nil, List.reverse_reverse, String.ofList_toList]

theorem separator_ne_of_mem_toString {id : ℤ} {c : Char}
    (hc : c ∈ (ToString.toString id).toList) : c ≠ '_' ∧ c ≠ '/' := by
  rcases isDigit_or_minus_of_mem_toString hc with hc | rfl
  · constructor
    · rintro rfl
      exact absurd hc (by decide)
    · rintro rfl
      exact absurd hc (by decide)
  · decide

/-- The name of a node has neither of the two separators. -/
theorem separator_not_mem_nodeName (id : ℤ) :
    '_' ∉ (nodeName id).toList ∧ '/' ∉ (nodeName id).toList := by
  rw [nodeName, String.toList_append]
  constructor
  · intro h
    rcases List.mem_append.mp h with h | h
    · exact absurd h (by decide)
    · exact (separator_ne_of_mem_toString h).1 rfl
  · intro h
    rcases List.mem_append.mp h with h | h
    · exact absurd h (by decide)
    · exact (separator_ne_of_mem_toString h).2 rfl

theorem slash_not_mem_ephemeralName (shardId : ℤ) (type : ShardType) {sequence : String}
    (hsequence : ∀ c ∈ sequence.toList, c.isDigit) :
    '/' ∉ (ephemeralName shardId (nodeName shardId) type sequence).toList := by
  have hname := (separator_not_mem_nodeName shardId).2
  have hid : '/' ∉ (ToString.toString shardId).toList := by
    intro h
    exact (separator_ne_of_mem_toString h).2 rfl
  have htype : '/' ∉ type.toString.toList := by
    cases type <;> decide
  have hdigits : '/' ∉ sequence.toList := by
    intro h
    exact absurd (hsequence _ h) (by decide)
  simp only [ephemeralName, String.toList_append, List.mem_append]
  rintro ((((((h | h) | h) | h) | h) | h) | h)
  · exact hid h
  · exact absurd h (by decide)
  · exact hname h
  · exact absurd h (by decide)
  · exact htype h
  · exact absurd h (by decide)
  · exact hdigits h

/-- The name of the node that a backend registers, under any parent and with any number. -/
def registeredName (parentPath : String) (shardId : ℤ) (type : ShardType) (sequence : String) :
    String :=
  lastComponent (getEphemeralPath parentPath shardId (nodeName shardId) type ++ sequence)

theorem parseChildNode_registeredName {shardId : ℤ} (hid : IsInt64 shardId) (type : ShardType)
    {sequence : String} (hsequence : ∀ c ∈ sequence.toList, c.isDigit) (parentPath : String) :
    parseChildNode (registeredName parentPath shardId type sequence) =
      some ⟨nodeName shardId, shardId, type⟩ := by
  have hdigits : '_' ∉ sequence.toList := by
    intro h
    exact absurd (hsequence _ h) (by decide)
  rw [registeredName, getEphemeralPath_append,
    lastComponent_append (slash_not_mem_ephemeralName shardId type hsequence)]
  exact parseChildNode_ephemeralName hid (separator_not_mem_nodeName shardId).1 hdigits type

/-- **The names of nodes decode to what was registered.** So two nodes show the same shard and
    type exactly if they were registered for it. -/
theorem registeredName_decodes {shardId : ℤ} (hid : IsInt64 shardId) (type : ShardType)
    {sequence : String} (hsequence : ∀ c ∈ sequence.toList, c.isDigit) (parentPath : String) :
    parseChildNode (registeredName parentPath shardId type sequence) =
        some ⟨nodeName shardId, shardId, type⟩ ∧
      ∀ shardId' type' sequence' parentPath', IsInt64 shardId' →
        (∀ c ∈ sequence'.toList, c.isDigit) → ∀ child child',
        parseChildNode (registeredName parentPath shardId type sequence) = some child →
        parseChildNode (registeredName parentPath' shardId' type' sequence') = some child' →
        child.shardId = child'.shardId → child.shardType = child'.shardType →
        shardId = shardId' ∧ type = type' := by
  have hparse := parseChildNode_registeredName hid type hsequence parentPath
  refine ⟨hparse, ?_⟩
  intro shardId' type' sequence' parentPath' hid' hsequence' child child' hchild hchild' hshard htype
  obtain rfl := Option.some.inj (hparse.symm.trans hchild)
  obtain rfl := Option.some.inj
    ((parseChildNode_registeredName hid' type' hsequence' parentPath').symm.trans hchild')
  exact ⟨hshard, htype⟩

theorem registeredName_decodes_negative :
    parseChildNode (registeredName "/shards" (-3) .writeUrlsOnly "0000000042") =
      some ⟨nodeName (-3), -3, .writeUrlsOnly⟩ :=
  (registeredName_decodes (by decide) .writeUrlsOnly (by simp) "/shards").1

end Shortener.Shard
