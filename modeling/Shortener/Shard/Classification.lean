import Shortener.DotNet.HashSet
import Shortener.Shard.View

/-!
# The lists of the shards

`UpdateShards` with the lists and hash sets it fills, loop by loop
(`Shortener.Shared/Services/ShardService.cs`, lines 99–236). Two of the fields are lists, of
which every item has to occur once: `GetShardIdForNewUser` draws an index.

* `toView_updateShards`: as finite sets the fields are those of `updateShards`.
* `updateShards_classified`: for all children, the replica with the most restrictive type
  decides what a shard is open for, and neither the order of the children nor further
  replicas with less restrictive types change that.
-/

namespace Shortener.Shard.Frontend

open Shortener.DotNet

/-! ## `UpdateShards` -/

/-- The fields of `ShardService` that `UpdateShards` writes. -/
structure ShardService where
  onlineShardSet : HashSet ℤ
  onlineShardList : List ℤ
  shardIdsForNewUsers : List ℤ
  shardIdsForNewUrls : HashSet ℤ

namespace ShardService

/-- The sets that the first loop fills. -/
structure Sets where
  onlineShardSet : HashSet ℤ
  readWriteShards : HashSet ℤ
  writeUrlsOnlyShards : HashSet ℤ
  readOnlyShards : HashSet ℤ

/-- The sets before the loops. -/
def Sets.empty : Sets := ⟨.empty, .empty, .empty, .empty⟩

/-- The body of the first loop (lines 175–194). -/
def Sets.addChild (sets : Sets) (child : ChildNode) : Sets :=
  let sets := { sets with onlineShardSet := sets.onlineShardSet.add child.shardId }
  match child.shardType with
  | .readWrite => { sets with readWriteShards := sets.readWriteShards.add child.shardId }
  | .writeUrlsOnly => { sets with writeUrlsOnlyShards := sets.writeUrlsOnlyShards.add child.shardId }
  | .readOnly => { sets with readOnlyShards := sets.readOnlyShards.add child.shardId }
  | .uninitialized => sets

/-- The body of the second loop (lines 197–204), on the list and the set it fills. -/
def addReadWrite (writeUrlsOnlyShards : HashSet ℤ) (shardIds : List ℤ × HashSet ℤ) (shardId : ℤ) :
    List ℤ × HashSet ℤ :=
  (if !writeUrlsOnlyShards.contains shardId && !shardIds.1.contains shardId then
      shardIds.1 ++ [shardId]
    else shardIds.1,
    shardIds.2.add shardId)

/-- `UpdateShards` (lines 161–219). -/
def updateShards (children : List ChildNode) : ShardService :=
  let sets := children.foldl Sets.addChild .empty
  let notReadOnly := fun shardId => !sets.readOnlyShards.contains shardId
  let shardIds := (sets.readWriteShards.filter notReadOnly).foldl
    (addReadWrite sets.writeUrlsOnlyShards) ([], .empty)
  { onlineShardSet := sets.onlineShardSet
    onlineShardList := sets.onlineShardSet.items.foldl (fun list shardId => list ++ [shardId]) []
    shardIdsForNewUsers := shardIds.1
    shardIdsForNewUrls := (sets.writeUrlsOnlyShards.filter notReadOnly).foldl .add shardIds.2 }

variable (service : ShardService)

/-- `OnlineShards`. -/
def onlineShards : List ℤ := service.onlineShardList

/-- `IsOnline`. -/
def isOnline (shardId : ℤ) : Bool := service.onlineShardSet.contains shardId

/-- `GetShardIdForNewUser`; `next` is `_random.Next`. -/
def getShardIdForNewUser (next : ℕ → ℕ) : Option ℤ :=
  if service.shardIdsForNewUsers.length = 0 then none
  else service.shardIdsForNewUsers[next service.shardIdsForNewUsers.length]?

/-- `CanShardCreateNewUrl`. -/
def canShardCreateNewUrl (shardId : ℤ) : Bool := service.shardIdsForNewUrls.contains shardId

/-- What `Random.Next` promises: a number below its argument. -/
def IsRandom (next : ℕ → ℕ) : Prop := ∀ count, 0 < count → next count < count

/-- Some draw makes `GetShardIdForNewUser` return `shardId`. -/
def MayReturn (shardId : ℤ) : Prop :=
  ∃ next, IsRandom next ∧ service.getShardIdForNewUser next = some shardId

/-- The fields as finite sets. -/
def toView : View where
  onlineShardSet := service.onlineShardSet.toFinset
  shardIdsForNewUsers := service.shardIdsForNewUsers.toFinset
  shardIdsForNewUrls := service.shardIdsForNewUrls.toFinset

variable {service}

/-! ## The loops -/

/-- The sets of the first loop as finite sets. -/
def Sets.toShardSets (sets : Sets) : ShardSets where
  onlineShardSet := sets.onlineShardSet.toFinset
  readWriteShards := sets.readWriteShards.toFinset
  writeUrlsOnlyShards := sets.writeUrlsOnlyShards.toFinset
  readOnlyShards := sets.readOnlyShards.toFinset

theorem Sets.toShardSets_addChild (sets : Sets) (child : ChildNode) :
    (sets.addChild child).toShardSets = sets.toShardSets.addChild child := by
  cases htype : child.shardType <;> simp [addChild, ShardSets.addChild, toShardSets, htype]

theorem Sets.toShardSets_foldl (children : List ChildNode) (sets : Sets) :
    (children.foldl addChild sets).toShardSets =
      children.foldl ShardSets.addChild sets.toShardSets := by
  induction children generalizing sets with
  | nil => rfl
  | cons child children ih => rw [List.foldl_cons, ih, toShardSets_addChild, List.foldl_cons]

theorem mem_addReadWrite {writeUrlsOnlyShards : HashSet ℤ} {shardIds : List ℤ × HashSet ℤ}
    {shardId x : ℤ} :
    x ∈ (addReadWrite writeUrlsOnlyShards shardIds shardId).1 ↔
      (x = shardId ∧ x ∉ writeUrlsOnlyShards.items) ∨ x ∈ shardIds.1 := by
  unfold addReadWrite
  split_ifs with h
  · simp only [Bool.and_eq_true, Bool.not_eq_true', HashSet.contains_eq_false_iff] at h
    rw [List.mem_append, List.mem_singleton, or_comm]
    grind
  · simp only [Bool.and_eq_true, Bool.not_eq_true', HashSet.contains_eq_false_iff,
      List.contains_eq_mem, decide_eq_false_iff_not] at h
    grind

theorem nodup_addReadWrite {writeUrlsOnlyShards : HashSet ℤ} {shardIds : List ℤ × HashSet ℤ}
    {shardId : ℤ} (h : shardIds.1.Nodup) :
    (addReadWrite writeUrlsOnlyShards shardIds shardId).1.Nodup := by
  unfold addReadWrite
  split_ifs with hnot
  · have hin : shardId ∉ shardIds.1 := by simp at hnot; exact hnot.2
    exact List.Nodup.append h (List.nodup_singleton shardId) (List.disjoint_singleton.mpr hin)
  · exact h

/-- What the second loop puts into the list and into the set. -/
theorem mem_foldl_addReadWrite {writeUrlsOnlyShards : HashSet ℤ} {l : List ℤ}
    {shardIds : List ℤ × HashSet ℤ} {x : ℤ} :
    (x ∈ (l.foldl (addReadWrite writeUrlsOnlyShards) shardIds).1 ↔
      (x ∈ l ∧ x ∉ writeUrlsOnlyShards.items) ∨ x ∈ shardIds.1) ∧
    (x ∈ (l.foldl (addReadWrite writeUrlsOnlyShards) shardIds).2.items ↔
      x ∈ l ∨ x ∈ shardIds.2.items) := by
  induction l generalizing shardIds with
  | nil => simp
  | cons shardId l ih =>
    have hset : x ∈ (addReadWrite writeUrlsOnlyShards shardIds shardId).2.items ↔
        x = shardId ∨ x ∈ shardIds.2.items := HashSet.mem_add
    rw [List.foldl_cons, ih.1, ih.2, mem_addReadWrite, hset, List.mem_cons]
    tauto

theorem nodup_foldl_addReadWrite {writeUrlsOnlyShards : HashSet ℤ} {l : List ℤ}
    {shardIds : List ℤ × HashSet ℤ} (h : shardIds.1.Nodup) :
    (l.foldl (addReadWrite writeUrlsOnlyShards) shardIds).1.Nodup := by
  induction l generalizing shardIds with
  | nil => exact h
  | cons shardId l ih => exact ih (nodup_addReadWrite h)

theorem onlineShardList_updateShards (children : List ChildNode) :
    (updateShards children).onlineShardList = (updateShards children).onlineShardSet.items := by
  have hcopy : ∀ (l acc : List ℤ), l.foldl (fun list shardId => list ++ [shardId]) acc = acc ++ l := by
    intro l
    induction l with
    | nil => simp
    | cons x l ih =>
      intro acc
      rw [List.foldl_cons, ih, List.append_assoc, List.singleton_append]
  exact (hcopy _ []).trans (List.nil_append _)

/-- The lists and hash sets are the finite sets of `Frontend.updateShards`. -/
theorem toView_updateShards (children : List ChildNode) :
    (updateShards children).toView = Frontend.updateShards children := by
  have hsets := Sets.toShardSets_foldl children .empty
  rw [show Sets.empty.toShardSets = ⟨∅, ∅, ∅, ∅⟩ from rfl] at hsets
  unfold Frontend.updateShards
  rw [← hsets]
  unfold toView updateShards
  dsimp only [Sets.toShardSets]
  congr 1
  · ext x
    rw [List.mem_toFinset, mem_foldl_addReadWrite.1]
    simp [HashSet.filter]
  · ext x
    rw [HashSet.mem_toFinset, HashSet.mem_foldl_add, mem_foldl_addReadWrite.2]
    simp [HashSet.filter, HashSet.empty]
    tauto

theorem nodup_shardIdsForNewUsers (children : List ChildNode) :
    (updateShards children).shardIdsForNewUsers.Nodup :=
  nodup_foldl_addReadWrite List.nodup_nil

/-! ## What the service answers -/

variable {children children' extra : List ChildNode} {shardId : ℤ}

theorem mem_onlineShards_updateShards :
    shardId ∈ (updateShards children).onlineShards ↔ Online children shardId := by
  rw [onlineShards, onlineShardList_updateShards, ← mem_onlineShardSet, ← toView_updateShards]
  exact HashSet.mem_toFinset.symm

theorem isOnline_updateShards :
    (updateShards children).isOnline shardId = true ↔ Online children shardId := by
  rw [isOnline, HashSet.contains_iff, ← mem_onlineShards_updateShards, onlineShards,
    onlineShardList_updateShards]

theorem canShardCreateNewUrl_updateShards :
    (updateShards children).canShardCreateNewUrl shardId = true ↔ OpenForUrls children shardId := by
  rw [canShardCreateNewUrl, HashSet.contains_iff, ← mem_shardIds.2, ← toView_updateShards]
  exact HashSet.mem_toFinset.symm

/-- Every item of the list can be drawn, and nothing else. -/
theorem mayReturn_iff : service.MayReturn shardId ↔ shardId ∈ service.shardIdsForNewUsers := by
  unfold MayReturn getShardIdForNewUser
  constructor
  · rintro ⟨next, -, h⟩
    split_ifs at h
    exact List.mem_of_getElem? h
  · intro h
    obtain ⟨i, hi, hget⟩ := List.mem_iff_getElem.mp h
    refine ⟨fun count => min i (count - 1), ?_, ?_⟩
    · intro count hcount
      show min i (count - 1) < count
      omega
    · have hmin : min i (service.shardIdsForNewUsers.length - 1) = i := by omega
      rw [if_neg (by omega)]
      show service.shardIdsForNewUsers[min i (service.shardIdsForNewUsers.length - 1)]? = some shardId
      rw [hmin, List.getElem?_eq_getElem hi, hget]

theorem mayReturn_updateShards :
    (updateShards children).MayReturn shardId ↔ OpenForUsers children shardId := by
  rw [mayReturn_iff, ← mem_shardIds.1, ← toView_updateShards]
  exact List.mem_toFinset.symm

theorem openForUrls_of_openForUsers (h : OpenForUsers children shardId) :
    OpenForUrls children shardId :=
  ⟨Or.inl h.1, h.2.1⟩

theorem online_of_openForUrls (h : OpenForUrls children shardId) : Online children shardId := by
  obtain ⟨child, hmem, hid, -⟩ | ⟨child, hmem, hid, -⟩ := h.1
  · exact ⟨child, hmem, hid⟩
  · exact ⟨child, hmem, hid⟩

/-! ## Further replicas -/

/-- How much a replica with this type restricts its shard. -/
def restriction : ShardType → ℕ
  | .uninitialized => 0
  | .readWrite => 1
  | .writeUrlsOnly => 2
  | .readOnly => 3

/-- Each of `extra` is a replica of a shard of which one in `children` restricts it at least as
    much. -/
def Outranked (extra children : List ChildNode) : Prop :=
  ∀ node ∈ extra, ∃ child ∈ children, child.shardId = node.shardId ∧
    restriction node.shardType ≤ restriction child.shardType

instance (extra children : List ChildNode) : Decidable (Outranked extra children) :=
  inferInstanceAs (Decidable (∀ node ∈ extra, ∃ child ∈ children, _ ∧ _))

/-- Some replica of the shard restricts it to `n` at least. -/
def HasRestriction (children : List ChildNode) (shardId : ℤ) (n : ℕ) : Prop :=
  ∃ child ∈ children, child.shardId = shardId ∧ n ≤ restriction child.shardType

theorem online_iff_hasRestriction : Online children shardId ↔ HasRestriction children shardId 0 := by
  simp [Online, HasRestriction]

theorem hasRestriction_iff {n : ℕ} :
    HasRestriction children shardId n ↔
      (n ≤ 1 ∧ HasType children shardId .readWrite) ∨ (n ≤ 2 ∧ HasType children shardId .writeUrlsOnly) ∨
        (n ≤ 3 ∧ HasType children shardId .readOnly) ∨
        (n = 0 ∧ HasType children shardId .uninitialized) := by
  unfold HasRestriction HasType
  constructor
  · rintro ⟨child, hmem, hid, hn⟩
    cases htype : child.shardType with
    | readWrite => exact Or.inl ⟨by rwa [htype] at hn, child, hmem, hid, htype⟩
    | writeUrlsOnly => exact Or.inr (Or.inl ⟨by rwa [htype] at hn, child, hmem, hid, htype⟩)
    | readOnly => exact Or.inr (Or.inr (Or.inl ⟨by rwa [htype] at hn, child, hmem, hid, htype⟩))
    | uninitialized =>
      rw [htype] at hn
      exact Or.inr (Or.inr (Or.inr ⟨Nat.le_zero.mp hn, child, hmem, hid, htype⟩))
  · rintro (⟨hn, child, hmem, hid, htype⟩ | ⟨hn, child, hmem, hid, htype⟩ |
      ⟨hn, child, hmem, hid, htype⟩ | ⟨hn, child, hmem, hid, htype⟩)
    all_goals exact ⟨child, hmem, hid, by rw [htype]; simpa [restriction] using hn⟩

/-- A shard is open for users if its most restrictive replica is `ReadWrite`. -/
theorem openForUsers_iff_hasRestriction :
    OpenForUsers children shardId ↔
      HasRestriction children shardId 1 ∧ ¬ HasRestriction children shardId 2 := by
  rw [hasRestriction_iff, hasRestriction_iff, OpenForUsers]
  simp
  tauto

/-- A shard is open for URLs if its most restrictive replica is `ReadWrite` or `WriteUrlsOnly`. -/
theorem openForUrls_iff_hasRestriction :
    OpenForUrls children shardId ↔
      HasRestriction children shardId 1 ∧ ¬ HasRestriction children shardId 3 := by
  rw [hasRestriction_iff, hasRestriction_iff, OpenForUrls]
  simp
  tauto

theorem hasRestriction_of_outranked (h : Outranked extra children)
    (hperm : children'.Perm (extra ++ children)) (n : ℕ) :
    HasRestriction children' shardId n ↔ HasRestriction children shardId n := by
  unfold HasRestriction
  simp only [hperm.mem_iff, List.mem_append]
  constructor
  · rintro ⟨node, hextra | hmem, rfl, hn⟩
    · obtain ⟨child, hmem, hid, hle⟩ := h node hextra
      exact ⟨child, hmem, hid, hn.trans hle⟩
    · exact ⟨node, hmem, rfl, hn⟩
  · rintro ⟨child, hmem, hid, hn⟩
    exact ⟨child, Or.inr hmem, hid, hn⟩

/-- The two services answer every call alike. -/
def SameAnswers (s t : ShardService) : Prop :=
  ∀ shardId, (shardId ∈ s.onlineShards ↔ shardId ∈ t.onlineShards) ∧
    s.isOnline shardId = t.isOnline shardId ∧
    s.canShardCreateNewUrl shardId = t.canShardCreateNewUrl shardId ∧
    (s.MayReturn shardId ↔ t.MayReturn shardId)

theorem sameAnswers_of_outranked (h : Outranked extra children)
    (hperm : children'.Perm (extra ++ children)) :
    SameAnswers (updateShards children') (updateShards children) := by
  intro shardId
  have hrestriction : ∀ n, HasRestriction children' shardId n ↔ HasRestriction children shardId n :=
    hasRestriction_of_outranked h hperm
  have honline : Online children' shardId ↔ Online children shardId := by
    rw [online_iff_hasRestriction, online_iff_hasRestriction, hrestriction]
  have husers : OpenForUsers children' shardId ↔ OpenForUsers children shardId := by
    rw [openForUsers_iff_hasRestriction, openForUsers_iff_hasRestriction, hrestriction, hrestriction]
  have hurls : OpenForUrls children' shardId ↔ OpenForUrls children shardId := by
    rw [openForUrls_iff_hasRestriction, openForUrls_iff_hasRestriction, hrestriction, hrestriction]
  refine ⟨?_, Bool.eq_iff_iff.mpr ?_, Bool.eq_iff_iff.mpr ?_, ?_⟩
  · rw [mem_onlineShards_updateShards, mem_onlineShards_updateShards, honline]
  · rw [isOnline_updateShards, isOnline_updateShards, honline]
  · rw [canShardCreateNewUrl_updateShards, canShardCreateNewUrl_updateShards, hurls]
  · rw [mayReturn_updateShards, mayReturn_updateShards, husers]

/-- What the service has to know of the children. -/
structure Classifies (service : ShardService) (children : List ChildNode) : Prop where
  isOnline : ∀ x, service.isOnline x = true ↔ ∃ child ∈ children, child.shardId = x
  canShardCreateNewUrl : ∀ x, service.canShardCreateNewUrl x = true ↔
    (HasType children x .readWrite ∨ HasType children x .writeUrlsOnly) ∧ ¬ HasType children x .readOnly
  mayReturn : ∀ x, service.MayReturn x ↔
    HasType children x .readWrite ∧ ¬ HasType children x .writeUrlsOnly ∧ ¬ HasType children x .readOnly
  nodup_onlineShards : service.onlineShards.Nodup
  nodup_shardIdsForNewUsers : service.shardIdsForNewUsers.Nodup
  users_subset : service.shardIdsForNewUsers ⊆ service.shardIdsForNewUrls.items
  urls_subset : service.shardIdsForNewUrls.items ⊆ service.onlineShards

/-- **`UpdateShards` classifies the shards by their most restrictive replicas.** For all
    children; in another order, or with further replicas that are outranked, it gives the same
    answers. -/
theorem updateShards_classified (children : List ChildNode) :
    Classifies (updateShards children) children ∧
      (∀ children', children'.Perm children →
        SameAnswers (updateShards children') (updateShards children)) ∧
      ∀ extra children', Outranked extra children → children'.Perm (extra ++ children) →
        SameAnswers (updateShards children') (updateShards children) := by
  refine ⟨⟨fun x => isOnline_updateShards, fun x => canShardCreateNewUrl_updateShards, ?_, ?_,
    nodup_shardIdsForNewUsers children, ?_, ?_⟩, ?_, ?_⟩
  · intro x
    rw [mayReturn_updateShards, OpenForUsers, and_comm (a := ¬ HasType children x .readOnly)]
  · rw [onlineShards, onlineShardList_updateShards]
    exact (updateShards children).onlineShardSet.nodup
  · intro x hx
    rw [← HashSet.contains_iff]
    exact canShardCreateNewUrl_updateShards.mpr
      (openForUrls_of_openForUsers (mayReturn_updateShards.mp (mayReturn_iff.mpr hx)))
  · intro x hx
    rw [← HashSet.contains_iff] at hx
    exact mem_onlineShards_updateShards.mpr
      (online_of_openForUrls (canShardCreateNewUrl_updateShards.mp hx))
  · intro children' hperm
    have hnone : Outranked [] children := fun _ h => absurd h List.not_mem_nil
    exact sameAnswers_of_outranked hnone hperm
  · intro extra children' hout hperm
    exact sameAnswers_of_outranked hout hperm

/-- A migrated shard with one old replica left, which restarts. -/
theorem updateShards_classified_migration :
    SameAnswers
      (updateShards [⟨"old", 1, .readWrite⟩, ⟨"new", 1, .writeUrlsOnly⟩, ⟨"old", 1, .readWrite⟩])
      (updateShards [⟨"old", 1, .readWrite⟩, ⟨"new", 1, .writeUrlsOnly⟩]) :=
  (updateShards_classified _).2.2 [⟨"old", 1, .readWrite⟩] _ (by decide)
    (by decide)

end ShardService

end Shortener.Shard.Frontend
