import Shortener.Backend.Registry

/-!
# Changes of links

What a shard shows of a link after calls that changed it have been answered, however calls
overlap. An id is given to one link only, so that a deleted link does not come back.

* `deleted_link_gone`: who asks for a link after its deletion has been answered, is told that
  there is none.
* `updated_link_shown`: who asks for a link after an update has been answered, is told its
  destination, or that of an update that came later or overlapped it.
-/

namespace Shortener.Backend

open Shortener.Common Shortener.DotNet Shortener.Codec Shortener.Links Shortener.Shard
  Shortener.Rpc

/-! ## The registry -/

/-- The ids of links are used. -/
def Registry.Sound (a : Registry) : Prop := ∀ id link, a.links id = some link → id ∈ a.used

/-- The id is given away, and its link leads to one of these destinations if it is there. -/
def Registry.LeadsInto (a : Registry) (id : ℤ) (destinationUrls : Set String) : Prop :=
  id ∈ a.used ∧ ∀ link, a.links id = some link → link.destinationUrl ∈ destinationUrls

/-- The request is about the link with this id. -/
def Request.Names (request : Request) (index : ℤ) : Prop :=
  ∃ shortId id, request.shortId = some shortId ∧ parseId shortId = .ret id ∧ id.index = index

/-- There is no link that the request is about. -/
def Misses : Request → Exec Reply → Prop
  | .redirect _, answer => answer = throw (.notFound "ShortId" none)
  -- the destination is checked first
  | .update _ _ _, answer =>
    answer = .ret (.success false) ∨ answer = throw (.invalidArgument "DestinationUrl" none)
  | .delete _ _, answer => answer = .ret (.success false)
  | _, _ => True

section

variable {opens : ℕ → String → Set String} {shardId : ℤ} {a b : Registry} {request : Request}
  {answer : Exec Reply} {index : ℤ} {destinationUrls : Set String}

theorem sound_init : Registry.init.Sound := by
  intro id link hlink
  cases hlink

theorem Registry.Sound.afterUser (h : a.Sound) (request : Accounts.Request)
    (directory : Accounts.Directory) : (a.afterUser request directory).Sound := by
  intro id link hlink
  exact h id link (Option.filter_eq_some_iff.mp hlink).1

theorem Registry.Sound.use (h : a.Sound) (id : ℤ) : (a.use id).Sound :=
  fun id' link hlink => Set.mem_insert_of_mem id (h id' link hlink)

theorem Registry.Sound.set (h : a.Sound) {id : ℤ} (hused : id ∈ a.used) (link : Option Link) :
    (a.set id link).Sound := by
  intro id' link' hlink
  by_cases hid : id' = id
  · subst hid
    exact hused
  · have hlink : Function.update a.links id link id' = some link' := hlink
    rw [Function.update_of_ne hid] at hlink
    exact h id' link' hlink

theorem Permits.sound (h : Permits opens shardId a request answer b) (ha : a.Sound) : b.Sound := by
  cases h with
  | user => exact ha.afterUser _ _
  | createUnknown => exact ha.use _
  | create => exact (ha.use _).set (Set.mem_insert ..) _
  | update hparse hlink => exact ha.set (ha _ _ hlink) _
  | delete hparse hlink => exact ha.set (ha _ _ hlink) _
  | _ => exact ha

theorem Registry.LeadsInto.set (h : a.LeadsInto index destinationUrls) {id : ℤ}
    {link : Option Link}
    (hlink : id = index → ∀ l, link = some l → l.destinationUrl ∈ destinationUrls) :
    (a.set id link).LeadsInto index destinationUrls := by
  refine ⟨h.1, fun l hl => ?_⟩
  have hl : Function.update a.links id link index = some l := hl
  by_cases hid : index = id
  · subst hid
    rw [Function.update_self] at hl
    exact hlink rfl l hl
  · rw [Function.update_of_ne hid] at hl
    exact h.2 l hl

theorem Registry.LeadsInto.use (h : a.LeadsInto index destinationUrls) (id : ℤ) :
    (a.use id).LeadsInto index destinationUrls := ⟨Set.mem_insert_of_mem id h.1, h.2⟩

/-- Only an update changes where a link leads, and nothing brings it back. -/
theorem Permits.leadsInto (h : Permits opens shardId a request answer b)
    (ha : a.LeadsInto index destinationUrls)
    (hupdate : ∀ userId shortId destinationUrl link,
      request = .update userId shortId destinationUrl → request.Names index →
        a.links index = some link → destinationUrl ∈ destinationUrls) :
    b.LeadsInto index destinationUrls := by
  cases h with
  | user => exact ⟨ha.1, fun link hlink => ha.2 link (Option.filter_eq_some_iff.mp hlink).1⟩
  | createUnknown => exact ha.use _
  | create haccount hfresh =>
    refine (ha.use _).set ?_
    rintro rfl
    exact absurd ha.1 hfresh.unused
  | @update userId shortId destinationUrl id link hparse hlink =>
    refine ha.set ?_
    rintro rfl l hl
    obtain rfl := Option.some.inj hl
    exact hupdate userId shortId destinationUrl link rfl ⟨shortId, id, rfl, hparse, rfl⟩ hlink
  | delete => exact ha.set fun _ _ hl => by cases hl
  | _ => exact ha

theorem Permits.leadsInto_of_delete {userId : ℤ} {shortId : String} {id : ShortId}
    (h : Permits opens shardId a (.delete userId shortId) (.ret (.success true)) b)
    (hid : parseId shortId = .ret id) (ha : a.Sound) : b.LeadsInto id.index ∅ := by
  cases h with
  | delete hparse hlink =>
    obtain rfl := Exec.ret.inj (hid.symm.trans hparse)
    refine ⟨ha _ _ hlink, fun link hl => ?_⟩
    have hl : Function.update a.links id.index none id.index = some link := hl
    rw [Function.update_self] at hl
    cases hl

theorem Permits.leadsInto_of_update {userId : ℤ} {shortId destinationUrl : String} {id : ShortId}
    (h : Permits opens shardId a (.update userId shortId destinationUrl) (.ret (.success true)) b)
    (hid : parseId shortId = .ret id) (ha : a.Sound) (hmem : destinationUrl ∈ destinationUrls) :
    b.LeadsInto id.index destinationUrls := by
  cases h with
  | update hparse hlink =>
    obtain rfl := Exec.ret.inj (hid.symm.trans hparse)
    refine ⟨ha _ _ hlink, fun link hl => ?_⟩
    have hl : Function.update a.links id.index _ id.index = some link := hl
    rw [Function.update_self] at hl
    obtain rfl := Option.some.inj hl
    exact hmem

theorem Permits.destination_mem {shortId shown : String}
    (h : Permits opens shardId a (.redirect shortId) (.ret (.url shortId shown)) b)
    (ha : a.LeadsInto index destinationUrls) (hnames : (Request.redirect shortId).Names index) :
    shown ∈ destinationUrls := by
  obtain ⟨_, id, hshortId, hid, rfl⟩ := hnames
  obtain rfl := Option.some.inj hshortId
  generalize hanswer : (Exec.ret (Reply.url shortId shown)) = answer at h
  cases h with
  | @redirect _ id' link hparse hlink =>
    obtain rfl := Exec.ret.inj (hid.symm.trans hparse)
    obtain ⟨_, -, hreply⟩ := Exec.bind_eq_ret_iff.mp hanswer.symm
    obtain ⟨-, rfl⟩ := Reply.url.inj (Exec.ret.inj hreply)
    exact ha.2 link hlink
  | _ => cases hanswer

theorem Permits.misses (h : Permits opens shardId a request answer b) (ha : a.LeadsInto index ∅)
    (hnames : request.Names index) : Misses request answer := by
  obtain ⟨shortId, id, hshortId, hid, rfl⟩ := hnames
  cases h with
  | failed hshortId' hparse =>
    obtain rfl := Option.some.inj (hshortId.symm.trans hshortId')
    cases hid.symm.trans hparse
  | hangs hshortId' hparse =>
    obtain rfl := Option.some.inj (hshortId.symm.trans hshortId')
    cases hid.symm.trans hparse
  | badUpdate => exact .inr rfl
  | updateOther => exact .inl rfl
  | deleteOther | notFound => rfl
  | update hparse hlink | delete hparse hlink | redirect hparse hlink =>
    obtain rfl := Option.some.inj hshortId
    obtain rfl := Exec.ret.inj (hid.symm.trans hparse)
    exact (ha.2 _ hlink).elim
  | _ => trivial

end

/-! ## The shards -/

section

variable {env : Globalization} {tryCreate : String → Option Uri} {hasher : Accounts.PasswordHasher}

theorem keeps_sound {opens : ℕ → String → Set String} {shardId : ℤ} (r : ℤ × Request)
    (x : Exec Reply) (a b : ℤ → Registry) (ha : (a shardId).Sound)
    (h : specAt (Permits opens) a r x b) : (b shardId).Sound :=
  h.keeps (fun _ _ _ _ ha hpermits => hpermits.sound ha) ha

/-- **A deleted link is gone.** A call that begins after the deletion has been answered misses the
    link, whatever else is called in the meantime. -/
theorem deleted_link_gone {es : List (ℤ × Event)} {s : ℤ → Shard}
    (h : Run (stepAt (step env tryCreate hasher)) always (fun _ => .init) es s)
    {shardId userId : ℤ} {shortId : String} {id : ShortId} (hid : parseId shortId = .ret id)
    {request : Request} (hnames : request.Names id.index) {k m : ℤ × ℕ} {answer : Exec Reply}
    (hhistory : [.call k (shardId, .delete userId shortId), .answer k (.ret (.success true)),
      .call m (shardId, request), .answer m answer].Sublist (history env tryCreate hasher es)) :
    Misses request answer := by
  obtain ⟨l, b, hl, -⟩ := shards_linearizable h
  have hafter := hl.later (P := fun a => (a shardId).Sound)
    (Q := fun a => (a shardId).LeadsInto id.index ∅) sound_init keeps_sound ?_ ?_ hhistory
  · obtain ⟨a, b, hgone, c, hpermits, -⟩ := hafter
    exact hpermits.misses hgone hnames
  · intro _ _ _ _ _ _ _ ha hspec
    refine hspec.keeps (p := fun a => a.LeadsInto id.index ∅) ?_ ha
    intro a request answer b ha hpermits
    exact hpermits.leadsInto ha fun _ _ _ link _ _ hlink => ha.2 link hlink
  · rintro a _ hsound ⟨c, hpermits, rfl⟩
    rw [Function.update_self]
    exact hpermits.leadsInto_of_delete hid hsound

/-- Somebody asks again. -/
def askedAgain : List (ℤ × Event) :=
  overtakenRedirect ++ [.receive (.redirect "1LafLC9"), .execute 4, .answer 4].map fun e => (1, e)

theorem deleted_link_gone_askedAgain :
    ∃ s, Run (stepAt (step .invariantMode Owner.oneUri Accounts.saltedHasher)) always
        (fun _ => .init) askedAgain s ∧
      [.call (1, 3) (1, .delete 1 "1LafLC9"), .answer (1, 3) (.ret (.success true)),
        .call (1, 4) (1, .redirect "1LafLC9"),
        .answer (1, 4) (throw (.notFound "ShortId" none))].Sublist
          (history .invariantMode Owner.oneUri Accounts.saltedHasher askedAgain) ∧
      Misses (.redirect "1LafLC9") (throw (.notFound "ShortId" none)) := by
  have hsome : (askedAgain.foldlM
      (stepAt (step .invariantMode Owner.oneUri Accounts.saltedHasher)) fun _ => .init).isSome := by
    decide +kernel
  obtain ⟨s, hrun⟩ := exists_run hsome
  have hid : parseId "1LafLC9" = .ret ⟨1, 1⟩ := by decide +kernel
  have hhistory : [.call (1, 3) (1, .delete 1 "1LafLC9"), .answer (1, 3) (.ret (.success true)),
      .call (1, 4) (1, .redirect "1LafLC9"),
      .answer (1, 4) (throw (.notFound "ShortId" none))].Sublist
        (history .invariantMode Owner.oneUri Accounts.saltedHasher askedAgain) := by
    decide +kernel
  exact ⟨s, hrun, hhistory, deleted_link_gone hrun hid
    ⟨"1LafLC9", ⟨1, 1⟩, rfl, hid, rfl⟩ hhistory⟩

/-- **An updated link shows the update.** Who asks for a link after an update has been answered, is
    told its destination, or that of an update which came later or overlapped it. -/
theorem updated_link_shown {es : List (ℤ × Event)} {s : ℤ → Shard}
    (h : Run (stepAt (step env tryCreate hasher)) always (fun _ => .init) es s)
    {shardId userId : ℤ} {shortId destinationUrl : String} {id : ShortId}
    (hid : parseId shortId = .ret id) {asked shown : String}
    (hnames : (Request.redirect asked).Names id.index) {k m : ℤ × ℕ}
    (hhistory : [.call k (shardId, .update userId shortId destinationUrl),
      .answer k (.ret (.success true)), .call m (shardId, .redirect asked),
      .answer m (.ret (.url asked shown))].Sublist (history env tryCreate hasher es)) :
    shown = destinationUrl ∨ ∃ c userId' shortId',
      .call c (shardId, .update userId' shortId' shown) ∈ history env tryCreate hasher es ∧
      (Request.update userId' shortId' shown).Names id.index ∧
      Between (history env tryCreate hasher es) k m c := by
  obtain ⟨l, b, hl, -⟩ := shards_linearizable h
  let destinationUrls : Set String := fun url => url = destinationUrl ∨ ∃ c userId' shortId',
    .call c (shardId, .update userId' shortId' url) ∈ history env tryCreate hasher es ∧
    (Request.update userId' shortId' url).Names id.index ∧
    Between (history env tryCreate hasher es) k m c
  have hafter := hl.later (P := fun a => (a shardId).Sound)
    (Q := fun a => (a shardId).LeadsInto id.index destinationUrls) sound_init keeps_sound ?_ ?_
    hhistory
  · obtain ⟨a, b, hleads, c, hpermits, -⟩ := hafter
    exact hpermits.destination_mem hleads hnames
  · rintro c ⟨shardId', request⟩ x a _ hcall hbetween ha ⟨u, hpermits, rfl⟩
    by_cases hshard : shardId = shardId'
    · subst hshard
      rw [Function.update_self]
      refine hpermits.leadsInto ha ?_
      rintro userId' shortId' url link rfl hnames' -
      exact .inr ⟨c, userId', shortId', hcall, hnames', hbetween⟩
    · rw [Function.update_of_ne hshard]
      exact ha
  · rintro a _ hsound ⟨c, hpermits, rfl⟩
    rw [Function.update_self]
    exact hpermits.leadsInto_of_update hid hsound (.inl rfl)

/-- A parser that knows two URLs. -/
def twoUris (s : String) : Option Uri :=
  if s = "https://example.com/1" then some ⟨"https", "example.com", "/1"⟩
  else if s = "https://example.com/2" then some ⟨"https", "example.com", "/2"⟩
  else none

/-- Two updates overlap; the second is executed last, and never answered. -/
def overlappingUpdates : List (ℤ × Event) :=
  [.receive (.user (.create .readWrite "ann" "one" 1 ⟨"a", 10⟩)), .execute 0, .answer 0,
    .receive (.create 1 "https://example.com/1"), .check 1 .readWrite false, .getOrAdd 1,
    .execute 1, .answer 1, .receive (.update 1 "1LafLC9" "https://example.com/2"),
    .receive (.update 1 "1LafLC9" "https://example.com/1"), .check 2 .readWrite false,
    .check 3 .readWrite false, .getOrAdd 2, .getOrAdd 3, .execute 2, .answer 2, .execute 3,
    .lose 3, .receive (.redirect "1LafLC9"), .execute 4, .answer 4].map fun e => (1, e)

theorem updated_link_shown_overlappingUpdates :
    ∃ s, Run (stepAt (step .invariantMode twoUris Accounts.saltedHasher)) always (fun _ => .init)
        overlappingUpdates s ∧
      [.call (1, 2) (1, .update 1 "1LafLC9" "https://example.com/2"),
        .answer (1, 2) (.ret (.success true)), .call (1, 4) (1, .redirect "1LafLC9"),
        .answer (1, 4) (.ret (.url "1LafLC9" "https://example.com/1"))].Sublist
          (history .invariantMode twoUris Accounts.saltedHasher overlappingUpdates) ∧
      ∃ c userId shortId,
        .call c (1, .update userId shortId "https://example.com/1") ∈
          history .invariantMode twoUris Accounts.saltedHasher overlappingUpdates ∧
        (Request.update userId shortId "https://example.com/1").Names 1 ∧
        Between (history .invariantMode twoUris Accounts.saltedHasher overlappingUpdates)
          (1, 2) (1, 4) c := by
  have hsome : (overlappingUpdates.foldlM
      (stepAt (step .invariantMode twoUris Accounts.saltedHasher)) fun _ => .init).isSome := by
    decide +kernel
  obtain ⟨s, hrun⟩ := exists_run hsome
  have hid : parseId "1LafLC9" = .ret ⟨1, 1⟩ := by decide +kernel
  have hhistory : [.call (1, 2) (1, .update 1 "1LafLC9" "https://example.com/2"),
      .answer (1, 2) (.ret (.success true)), .call (1, 4) (1, .redirect "1LafLC9"),
      .answer (1, 4) (.ret (.url "1LafLC9" "https://example.com/1"))].Sublist
        (history .invariantMode twoUris Accounts.saltedHasher overlappingUpdates) := by
    decide +kernel
  have hshown := updated_link_shown hrun hid
    ⟨"1LafLC9", ⟨1, 1⟩, rfl, hid, rfl⟩ hhistory
  exact ⟨s, hrun, hhistory, hshown.resolve_left (by decide)⟩

end

end Shortener.Backend
