import Shortener.Stats.Reply

/-!
# The way of statistics over the wire

Four `ViewStats` objects that are filled by calls of their methods
(`Shortener.Shared/Entities/Url.cs`, lines 178–246) and then sent in a `GrpcUrlStats`.
`AddPlatform` and `AddBrowser` keep the dictionary they are given, so that groups of any of the
objects may share one, and what is added to one group shows in the others.

* `read_addGroup`: where nothing is shared, these are the methods of `ViewStats`.
* `grpc_lossless`: after any calls, reading the message that `Serialize` writes never throws and
  gives equal statistics.
-/

namespace Shortener.Stats.Lossless

open Shortener.DotNet

/-! ## Objects -/

/-- A `PlatformStats` or `BrowserStats` with a reference to its dictionary. -/
structure GroupObject (τ : Type) where
  type : τ
  views : ℤ
  partViews : ℕ

/-- A dictionary that has each group under its own type. -/
structure GroupObjects (τ : Type) [DecidableEq τ] where
  byType : Dictionary τ (GroupObject τ)
  keyed : ∀ type, ∀ stats ∈ byType.lookup type, stats.type = type

/-- The dictionaries by their references. -/
abbrev Heap := ℕ → Dictionary String ℤ

section

variable {τ : Type} [DecidableEq τ]

/-- A new dictionary of groups. -/
def GroupObjects.empty : GroupObjects τ := ⟨∅, fun _ _ h => absurd h (Option.not_mem_none _)⟩

/-- `groups[stats.Type] = stats`. -/
def GroupObjects.insert (groups : GroupObjects τ) (stats : GroupObject τ) : GroupObjects τ where
  byType := groups.byType.insert stats.type stats
  keyed := Dictionary.forall_insert groups.keyed rfl

/-- The body that `AddPlatform` and `AddBrowser` share. -/
def addGroup (heap : Heap) (groups : GroupObjects τ) (type : τ) (views : ℤ) (partViews : ℕ) :
    Heap × GroupObjects τ :=
  match groups.byType.lookup type with
  | some stats =>
    (Function.update heap stats.partViews ((heap stats.partViews).merge (heap partViews)),
      groups.insert { stats with views := toInt32 (stats.views + views) })
  | none => (heap, groups.insert ⟨type, views, partViews⟩)

end

/-- A `ViewStats`. -/
structure ViewObject where
  types : Dictionary UserAgentType ℤ
  platforms : GroupObjects PlatformType
  browsers : GroupObjects BrowserType
  mobileDeviceTypes : Dictionary String ℤ
  countries : Dictionary String ℤ
  referrers : Dictionary String ℤ
  views : ℤ

/-- `new ViewStats()`. -/
def ViewObject.empty : ViewObject := ⟨∅, .empty, .empty, ∅, ∅, ∅, 0⟩

/-- A call on a `ViewStats`; a dictionary is passed as a reference. -/
inductive Call
  | addType (type : UserAgentType) (views : ℤ)
  | addPlatform (type : PlatformType) (views : ℤ) (variantViews : ℕ)
  | addBrowser (type : BrowserType) (views : ℤ) (versionViews : ℕ)
  | addMobileDeviceType (type : String) (views : ℤ)
  | addCountry (country : String) (views : ℤ)
  | addReferrer (referrer : String) (views : ℤ)
  | setViews (views : ℤ)
  deriving DecidableEq, Repr

/-- A call on a `ViewStats`. -/
def ViewObject.run (heap : Heap) (view : ViewObject) : Call → Heap × ViewObject
  | .addType type views => (heap, { view with types := view.types.addOrSum type views })
  | .addPlatform type views variantViews =>
    let (heap, platforms) := addGroup heap view.platforms type views variantViews
    (heap, { view with platforms := platforms })
  | .addBrowser type views versionViews =>
    let (heap, browsers) := addGroup heap view.browsers type views versionViews
    (heap, { view with browsers := browsers })
  | .addMobileDeviceType type views =>
    (heap, { view with mobileDeviceTypes := view.mobileDeviceTypes.addOrSum type views })
  | .addCountry country views =>
    (heap, { view with countries := view.countries.addOrSum country views })
  | .addReferrer referrer views =>
    (heap, { view with referrers := view.referrers.addOrSum referrer views })
  | .setViews views => (heap, { view with views := views })

/-- The properties of a `UrlStats` that hold a `ViewStats`. -/
inductive Window
  | lastDay
  | lastWeek
  | lastMonth
  | allTime
  deriving DecidableEq, Repr

/-- The four `ViewStats` on the heap. -/
structure Objects where
  heap : Heap
  view : Window → ViewObject

/-- Four new `ViewStats`, and the dictionaries of the callers. -/
def Objects.new (heap : Heap) : Objects := ⟨heap, fun _ => .empty⟩

/-- A call on one of them. -/
def Objects.run (objects : Objects) (call : Window × Call) : Objects :=
  let (heap, view) := (objects.view call.1).run objects.heap call.2
  ⟨heap, Function.update objects.view call.1 view⟩

/-! ## What is read from them -/

section

variable {τ : Type} [DecidableEq τ]

/-- The group with its dictionary, as the heap has it. -/
def GroupObject.read (heap : Heap) (stats : GroupObject τ) : GroupStats τ :=
  ⟨stats.type, stats.views, heap stats.partViews⟩

/-- The groups with their dictionaries. -/
def GroupObjects.read (heap : Heap) (groups : GroupObjects τ) : Groups τ where
  byType := groups.byType.map (GroupObject.read heap)
  keyed := by
    intro type stats h
    rw [Dictionary.lookup_map] at h
    obtain ⟨object, hobject, rfl⟩ := Option.map_eq_some_iff.mp h
    exact groups.keyed type object hobject

/-- No two groups share a dictionary. -/
def GroupObjects.Unshared (groups : GroupObjects τ) : Prop :=
  ∀ type type' stats stats', groups.byType.lookup type = some stats →
    groups.byType.lookup type' = some stats' → stats.partViews = stats'.partViews → type = type'

theorem GroupObjects.lookup_read (heap : Heap) (groups : GroupObjects τ) (type : τ) :
    (groups.read heap).byType.lookup type =
      (groups.byType.lookup type).map (GroupObject.read heap) :=
  Dictionary.lookup_map _ _ _

/-- Where no dictionary is shared, a group is added to as if it were a value. -/
theorem read_addGroup (heap : Heap) {groups : GroupObjects τ} (h : groups.Unshared) (type : τ)
    (views : ℤ) (partViews : ℕ) (t : τ) :
    ((addGroup heap groups type views partViews).2.read
        (addGroup heap groups type views partViews).1).byType.lookup t =
      (Stats.addGroup (groups.read heap) type views (heap partViews)).byType.lookup t := by
  have hread := GroupObjects.lookup_read heap groups type
  unfold addGroup Stats.addGroup
  rw [GroupObjects.lookup_read]
  cases hlookup : groups.byType.lookup type with
  | none =>
    rw [hlookup] at hread
    simp only [hread, Option.map_none, GroupObjects.insert, Groups.insert]
    by_cases ht : t = type
    · subst ht
      rw [AList.lookup_insert, AList.lookup_insert]
      rfl
    · rw [AList.lookup_insert_ne ht, AList.lookup_insert_ne ht, GroupObjects.lookup_read]
  | some stats =>
    rw [hlookup] at hread
    have hkeyed : stats.type = type := groups.keyed type stats hlookup
    simp only [hread, Option.map_some, GroupObjects.insert, Groups.insert, GroupObject.read, hkeyed]
    by_cases ht : t = type
    · subst ht
      rw [AList.lookup_insert, AList.lookup_insert, Option.map_some, GroupObject.read,
        Function.update_self]
    · rw [AList.lookup_insert_ne ht, AList.lookup_insert_ne ht, GroupObjects.lookup_read]
      cases hother : groups.byType.lookup t with
      | none => rfl
      | some stats' =>
        -- the dictionary that changes is that of another group
        have hne : stats'.partViews ≠ stats.partViews := fun heq =>
          ht (h t type stats' stats hother hlookup heq)
        simp only [Option.map_some, GroupObject.read, Function.update_of_ne hne]

end

/-- The `ViewStats` with all its dictionaries. -/
def ViewObject.read (heap : Heap) (view : ViewObject) : ViewStats where
  types := view.types
  platforms := view.platforms.read heap
  browsers := view.browsers.read heap
  mobileDeviceTypes := view.mobileDeviceTypes
  countries := view.countries
  referrers := view.referrers
  views := view.views

/-- The `UrlStats` that has the objects. -/
def Objects.read (objects : Objects) (shortId destinationUrl : String) (totalViews : ℤ) :
    UrlStats where
  shortId := shortId
  destinationUrl := destinationUrl
  totalViews := totalViews
  lastDay := (objects.view .lastDay).read objects.heap
  lastWeek := (objects.view .lastWeek).read objects.heap
  lastMonth := (objects.view .lastMonth).read objects.heap
  allTime := (objects.view .allTime).read objects.heap

/-- **The gRPC encoding of statistics is lossless.** After any calls on the four objects, with any
    dictionaries passed. -/
theorem grpc_lossless (heap : Heap) (calls : List (Window × Call)) (shortId destinationUrl : String)
    (totalViews : ℤ) :
    let url := (calls.foldl Objects.run (.new heap)).read shortId destinationUrl totalViews
    ∃ url', UrlStats.ofGrpc url.serialize = .ret url' ∧ url'.Same url :=
  ⟨_, UrlStats.ofGrpc_serialize _, UrlStats.copied_same _⟩

end Shortener.Stats.Lossless
