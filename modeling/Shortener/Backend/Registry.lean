import Shortener.Accounts.Directory
import Shortener.Backend.Calls
import Shortener.Links.Origin

/-!
# What the shards are for

A registry of accounts and links that answers one request after the other. It knows nothing of
rows, domains and statements, and nothing of calls that overlap: a link that is created gets
some id that none had before.

* `Represents.execute`: the last statement of a call does on the tables what the registry
  permits.
* `shards_linearizable`: hence the calls of all shards, however they overlap, are answered as if
  they came one after the other.
-/

namespace Shortener.Backend

open Shortener.Common Shortener.DotNet Shortener.Codec Shortener.Links Shortener.Shard
  Shortener.Rpc

/-! ## The registry -/

/-- A link, and whose it is. -/
@[ext] structure Link where
  userId : ℤ
  destinationUrl : String
  deriving DecidableEq, Repr

/-- Accounts and links. -/
structure Registry where
  directory : Accounts.Directory
  links : ℤ → Option Link
  /-- the ids of links that are given away or lost -/
  used : Set ℤ

/-- No accounts, and no links. -/
def Registry.init : Registry := ⟨.init, fun _ => none, ∅⟩

/-- An id that may be given away. -/
structure Registry.Fresh (a : Registry) (id : ℤ) : Prop where
  unused : id ∉ a.used
  pos : 0 < id
  le : id ≤ Accounts.maxInteger

/-- An id is given away or lost. -/
def Registry.use (a : Registry) (id : ℤ) : Registry := { a with used := insert id a.used }

/-- The link of an id is put in, replaced or taken out. -/
def Registry.set (a : Registry) (id : ℤ) (link : Option Link) : Registry :=
  { a with links := Function.update a.links id link }

/-- The registry after a request to `UserService`; the links of a deleted user are gone. -/
def Registry.afterUser (a : Registry) (request : Accounts.Request)
    (directory : Accounts.Directory) : Registry where
  directory := directory
  links id := (a.links id).filter fun link => request ≠ .delete link.userId
  used := a.used

/-- The short id that a request is about. -/
def Request.shortId : Request → Option String
  | .redirect shortId => some shortId
  | .update _ shortId _ => some shortId
  | .delete _ shortId => some shortId
  | _ => none

/-- The answers that a request may get, and the registry after it. -/
inductive Permits (opens : ℕ → String → Set String) (shardId : ℤ) (a : Registry) :
    Request → Exec Reply → Registry → Prop
  | user {request : Accounts.Request} {reply : Accounts.Reply} {directory : Accounts.Directory} :
      (∀ statement, request ≠ .url statement) →
      Accounts.Permits opens shardId a.directory request reply directory →
      Permits opens shardId a (.user request) (.ret (.user reply)) (a.afterUser request directory)
  | readOnly {userId : ℤ} {destinationUrl : String} :
      Permits opens shardId a (.create userId destinationUrl)
        (throw (.resourceExhausted "ShortId" none)) a
  | badCreate {userId : ℤ} {destinationUrl : String} :
      Permits opens shardId a (.create userId destinationUrl)
        (throw (.invalidArgument "DestinationUrl" none)) a
  | badUpdate {userId : ℤ} {shortId destinationUrl : String} :
      Permits opens shardId a (.update userId shortId destinationUrl)
        (throw (.invalidArgument "DestinationUrl" none)) a
  | usedUp {userId : ℤ} {destinationUrl : String} : (∀ id, ¬ a.Fresh id) →
      Permits opens shardId a (.create userId destinationUrl)
        (.ret (.postgres .sequenceGeneratorLimitExceeded)) a
  | createUnknown {userId id : ℤ} {destinationUrl : String} :
      a.directory.Unknown userId → a.Fresh id →
      Permits opens shardId a (.create userId destinationUrl) (.ret (.postgres .foreignKeyViolation))
        (a.use id)
  | create {username destinationUrl : String} {account : Accounts.Account} {id : ℤ} :
      a.directory.accounts username = some account → a.Fresh id →
      Permits opens shardId a (.create account.id destinationUrl) (created shardId id destinationUrl)
        ((a.use id).set id (some ⟨account.id, destinationUrl⟩))
  | failed {request : Request} {shortId : String} {e : Exn} :
      request.shortId = some shortId → parseId shortId = .throw e →
      Permits opens shardId a request (.throw e) a
  | hangs {request : Request} {shortId : String} :
      request.shortId = some shortId → parseId shortId = .diverge →
      Permits opens shardId a request .diverge a
  | update {userId : ℤ} {shortId destinationUrl : String} {id : ShortId} {link : Link} :
      parseId shortId = .ret id → a.links id.index = some link → link.userId = userId →
      Permits opens shardId a (.update userId shortId destinationUrl) (.ret (.success true))
        (a.set id.index (some ⟨userId, destinationUrl⟩))
  | updateOther {userId : ℤ} {shortId destinationUrl : String} {id : ShortId} :
      parseId shortId = .ret id →
      (∀ link, a.links id.index = some link → link.userId ≠ userId) →
      Permits opens shardId a (.update userId shortId destinationUrl) (.ret (.success false)) a
  | delete {userId : ℤ} {shortId : String} {id : ShortId} {link : Link} :
      parseId shortId = .ret id → a.links id.index = some link → link.userId = userId →
      Permits opens shardId a (.delete userId shortId) (.ret (.success true)) (a.set id.index none)
  | deleteOther {userId : ℤ} {shortId : String} {id : ShortId} :
      parseId shortId = .ret id →
      (∀ link, a.links id.index = some link → link.userId ≠ userId) →
      Permits opens shardId a (.delete userId shortId) (.ret (.success false)) a
  | redirect {shortId : String} {id : ShortId} {link : Link} :
      parseId shortId = .ret id → a.links id.index = some link →
      Permits opens shardId a (.redirect shortId)
        (do
          let _ ← Redirects.getUrlMappingKey ⟨shardId, id.index⟩
          return .url shortId link.destinationUrl) a
  | notFound {shortId : String} {id : ShortId} :
      parseId shortId = .ret id → a.links id.index = none →
      Permits opens shardId a (.redirect shortId) (throw (.notFound "ShortId" none)) a

/-! ## Tables of a registry -/

/-- The link that a row shows. -/
def linkOf (row : Links.UrlRow) : Link := ⟨row.userId, row.destinationUrl⟩

/-- The tables show the registry. -/
structure Represents (hasher : Accounts.PasswordHasher) (db : Accounts.Database) (a : Registry) :
    Prop where
  accounts : Accounts.Represents hasher db a.directory
  keyed : Keyed db.links
  used : ∀ id, id ∈ a.used ↔ 0 < id ∧ id ≤ db.links.urlSequence
  limit : db.links.urlSequence ≤ Accounts.maxInteger
  links : ∀ id link, a.links id = some link ↔
    ∃ row ∈ db.links.urls, row.id = id ∧ linkOf row = link

section

variable {env : Globalization} {tryCreate : String → Option Uri} {hasher : Accounts.PasswordHasher}
  {shardId : ℤ} {db db' : Accounts.Database} {a : Registry}

theorem represents_init : Represents hasher .init .init where
  accounts := Accounts.represents_init
  keyed := keyed_init
  used id := by
    have hnot : ¬ (0 < id ∧ id ≤ 0) := by omega
    exact ⟨False.elim, hnot⟩
  limit := by decide
  links id link := by simp [Registry.init, Accounts.Database.init, Links.Database.init]

theorem Represents.links_eq_none (h : Represents hasher db a) (id : ℤ) :
    a.links id = none ↔ ∀ row ∈ db.links.urls, row.id ≠ id := by
  constructor
  · rintro hnone row hrow rfl
    have hsome := (h.links row.id (linkOf row)).mpr ⟨row, hrow, rfl, rfl⟩
    rw [hnone] at hsome
    cases hsome
  · intro hnot
    cases hlink : a.links id with
    | none => rfl
    | some link =>
      obtain ⟨row, hrow, hid, -⟩ := (h.links id link).mp hlink
      exact absurd hid (hnot row hrow)

/-- `UPDATE` and `DELETE` affect the row of the link, if it is the user's. -/
theorem Represents.affects_iff (h : Represents hasher db a) (id userId : ℤ) :
    affects db id userId = true ↔ ∃ link, a.links id = some link ∧ link.userId = userId := by
  simp only [affects, List.any_eq_true, decide_eq_true_eq]
  constructor
  · rintro ⟨row, hrow, hid, huser⟩
    exact ⟨linkOf row, (h.links id _).mpr ⟨row, hrow, hid, rfl⟩, huser⟩
  · rintro ⟨link, hlink, huser⟩
    obtain ⟨row, hrow, hid, rfl⟩ := (h.links id link).mp hlink
    exact ⟨row, hrow, hid, huser⟩

theorem Represents.affects_eq_false (h : Represents hasher db a) {id userId : ℤ}
    (hnot : affects db id userId = false) :
    ∀ link, a.links id = some link → link.userId ≠ userId := by
  intro link hlink huser
  rw [(h.affects_iff id userId).mpr ⟨link, hlink, huser⟩] at hnot
  cases hnot

theorem Represents.unused (h : Represents hasher db a)
    (hlimit : db.links.urlSequence ≠ Accounts.maxInteger) : a.Fresh (db.links.urlSequence + 1) where
  unused := by
    rw [h.used]
    omega
  pos := by
    have hnonneg := h.keyed.nonneg
    omega
  le := by
    have hle := h.limit
    omega

theorem Represents.used_next (h : Represents hasher db a) (id : ℤ) :
    id ∈ insert (db.links.urlSequence + 1) a.used ↔ 0 < id ∧ id ≤ db.links.urlSequence + 1 := by
  have hnonneg := h.keyed.nonneg
  rw [Set.mem_insert_iff, h.used]
  omega

/-! ### Statements -/

theorem Represents.add (h : Represents hasher db a)
    (hlimit : db.links.urlSequence ≠ Accounts.maxInteger) {userId domainId : ℤ}
    {destinationUrl : String} (huser : ∃ user ∈ db.users, user.id = userId) :
    Represents hasher { db with links := db.links.add userId destinationUrl domainId }
      ((a.use (db.links.urlSequence + 1)).set (db.links.urlSequence + 1)
        (some ⟨userId, destinationUrl⟩)) where
  accounts := by
    have haccounts := h.accounts.urlStatement (.add userId destinationUrl domainId)
    rw [Accounts.Database.urlStatement, if_pos huser] at haccounts
    exact haccounts
  keyed := h.keyed.add userId destinationUrl domainId
  used := h.used_next
  limit := (h.unused hlimit).le
  links := by
    intro id link
    show Function.update a.links (db.links.urlSequence + 1) _ id = some link ↔
      ∃ row ∈ db.links.urls ++ [_], row.id = id ∧ linkOf row = link
    by_cases hid : id = db.links.urlSequence + 1
    · subst hid
      rw [Function.update_self]
      constructor
      · intro hlink
        obtain rfl := Option.some.inj hlink
        exact ⟨_, List.mem_append_right _ (List.mem_singleton_self _), rfl, rfl⟩
      · rintro ⟨row, hrow, hid, rfl⟩
        rcases List.mem_append.mp hrow with hrow | hrow
        · have hle := h.keyed.le row hrow
          omega
        · obtain rfl := List.mem_singleton.mp hrow
          rfl
    · rw [Function.update_of_ne hid, h.links]
      constructor
      · rintro ⟨row, hrow, hrowId, hlink⟩
        exact ⟨row, List.mem_append_left _ hrow, hrowId, hlink⟩
      · rintro ⟨row, hrow, hrowId, hlink⟩
        rcases List.mem_append.mp hrow with hrow | hrow
        · exact ⟨row, hrow, hrowId, hlink⟩
        · obtain rfl := List.mem_singleton.mp hrow
          exact absurd hrowId.symm hid

/-- An id is lost. -/
theorem Represents.next (h : Represents hasher db a)
    (hlimit : db.links.urlSequence ≠ Accounts.maxInteger) :
    Represents hasher
      { db with links := { db.links with urlSequence := db.links.urlSequence + 1 } }
      (a.use (db.links.urlSequence + 1)) where
  accounts := by
    obtain ⟨hwell, hused, hrow, haccount⟩ := h.accounts
    obtain ⟨husernames, hids, hpos, hle, hnonneg, hmax, hforeign⟩ := hwell
    exact ⟨⟨husernames, hids, hpos, hle, hnonneg, hmax, hforeign⟩, hused, hrow, haccount⟩
  keyed := by
    refine ⟨h.keyed.nodup, h.keyed.pos, fun row hrow => ?_, ?_⟩
    · exact (h.keyed.le row hrow).trans (by show _ ≤ db.links.urlSequence + 1; omega)
    · have hnonneg := h.keyed.nonneg
      show 0 ≤ db.links.urlSequence + 1
      omega
  used := h.used_next
  limit := (h.unused hlimit).le
  links := h.links

/-- Rows that are changed in place. -/
theorem Represents.map (h : Represents hasher db a) {f : Links.UrlRow → Links.UrlRow} {b : Registry}
    (haccounts : Accounts.Represents hasher
      { db with links := { db.links with urls := db.links.urls.map f } } b.directory)
    (hid : ∀ row, (f row).id = row.id) (hused : b.used = a.used)
    (hlinks : ∀ id link, b.links id = some link ↔
      ∃ row ∈ db.links.urls, row.id = id ∧ linkOf (f row) = link) :
    Represents hasher { db with links := { db.links with urls := db.links.urls.map f } } b where
  accounts := haccounts
  keyed := h.keyed.map hid
  used := by
    rw [hused]
    exact h.used
  limit := h.limit
  links := by
    intro id link
    rw [hlinks]
    constructor
    · rintro ⟨row, hrow, hrowId, hlink⟩
      exact ⟨f row, List.mem_map_of_mem hrow, (hid row).trans hrowId, hlink⟩
    · rintro ⟨row', hrow', hrowId, hlink⟩
      obtain ⟨row, hrow, rfl⟩ := List.mem_map.mp hrow'
      exact ⟨row, hrow, (hid row).symm.trans hrowId, hlink⟩

theorem Represents.update (h : Represents hasher db a) {id userId : ℤ} (domainId : ℤ)
    (destinationUrl : String) {link : Link} (hlink : a.links id = some link)
    (huser : link.userId = userId) :
    Represents hasher (db.urlStatement (.update id userId domainId destinationUrl)).1
      (a.set id (some ⟨userId, destinationUrl⟩)) := by
  refine h.map (h.accounts.urlStatement (.update id userId domainId destinationUrl)) ?_ rfl ?_
  · intro row
    split_ifs <;> rfl
  · intro id' link'
    show Function.update a.links id _ id' = some link' ↔ _
    obtain ⟨own, hown, hownId, rfl⟩ := (h.links id link).mp hlink
    by_cases hid : id' = id
    · subst hid
      rw [Function.update_self]
      constructor
      · intro heq
        obtain rfl := Option.some.inj heq
        refine ⟨own, hown, hownId, ?_⟩
        rw [if_pos ⟨hownId, huser⟩]
        exact Link.ext huser rfl
      · rintro ⟨row, hrow, hrowId, rfl⟩
        obtain rfl := h.keyed.eq hrow hown (hrowId.trans hownId.symm)
        rw [if_pos ⟨hownId, huser⟩]
        exact congrArg some (Link.ext huser.symm rfl)
    · rw [Function.update_of_ne hid, h.links]
      refine exists_congr fun row => and_congr_right fun _ => and_congr_right fun hrowId => ?_
      rw [if_neg fun hmatch => hid (hrowId.symm.trans hmatch.1)]

theorem Represents.delete (h : Represents hasher db a) {id userId : ℤ} {link : Link}
    (hlink : a.links id = some link) (huser : link.userId = userId) :
    Represents hasher (db.urlStatement (.delete id userId)).1 (a.set id none) where
  accounts := h.accounts.urlStatement (.delete id userId)
  keyed := h.keyed.filter _
  used := h.used
  limit := h.limit
  links := by
    intro id' link'
    show Function.update a.links id none id' = some link' ↔
      ∃ row ∈ db.links.urls.filter _, row.id = id' ∧ linkOf row = link'
    obtain ⟨own, hown, hownId, rfl⟩ := (h.links id link).mp hlink
    by_cases hid : id' = id
    · subst hid
      rw [Function.update_self]
      refine iff_of_false (by simp) ?_
      rintro ⟨row, hrow, hrowId, -⟩
      obtain ⟨hrow, hkept⟩ := List.mem_filter.mp hrow
      obtain rfl := h.keyed.eq hrow hown (hrowId.trans hownId.symm)
      exact of_decide_eq_true hkept ⟨hownId, huser⟩
    · rw [Function.update_of_ne hid, h.links]
      refine exists_congr fun row => ?_
      rw [List.mem_filter, decide_eq_true_eq, and_assoc]
      refine and_congr_right fun _ => ⟨fun hrow => ⟨?_, hrow⟩, fun hrow => hrow.2⟩
      exact fun hmatch => hid (hrow.1.symm.trans hmatch.1)

theorem not_match_of_not_affects {id userId : ℤ} (hnot : affects db id userId = false) :
    ∀ url ∈ db.links.urls, ¬ (url.id = id ∧ url.userId = userId) := by
  simpa [affects] using hnot

/-- Nothing happens to rows of other users. -/
theorem update_of_not_affects {id userId : ℤ} (hnot : affects db id userId = false) (domainId : ℤ)
    (destinationUrl : String) :
    (db.urlStatement (.update id userId domainId destinationUrl)).1 = db := by
  have hmap : db.links.urls.map (fun url =>
      if url.id = id ∧ url.userId = userId then
        { url with destinationUrl := destinationUrl, domainId := domainId }
      else url) = db.links.urls :=
    (List.map_congr_left fun url hurl => if_neg (not_match_of_not_affects hnot url hurl)).trans
      (List.map_id _)
  show { db with links := { db.links with urls := _ } } = db
  rw [hmap]

theorem delete_of_not_affects {id userId : ℤ} (hnot : affects db id userId = false) :
    (db.urlStatement (.delete id userId)).1 = db := by
  have hfilter : (db.links.urls.filter fun url => ¬ (url.id = id ∧ url.userId = userId)) =
      db.links.urls :=
    List.filter_eq_self.mpr fun url hurl =>
      decide_eq_true (not_match_of_not_affects hnot url hurl)
  show { db with links := { db.links with urls := _ } } = db
  rw [hfilter]

theorem Represents.incrementVisit (h : Represents hasher db a) (id : ℤ) :
    Represents hasher (db.urlStatement (.incrementVisit id)).1 a := by
  refine h.map (h.accounts.urlStatement (.incrementVisit id)) ?_ rfl ?_
  · intro row
    split_ifs <;> rfl
  · intro id' link
    rw [h.links]
    refine exists_congr fun row => and_congr_right fun _ => and_congr_right fun _ => ?_
    split_ifs <;> rfl

theorem Represents.getOrAdd (h : Represents hasher db a) (name : String) :
    Represents hasher { db with links := (db.links.getOrAdd env name).1 } a where
  accounts := by
    obtain ⟨⟨husernames, hids, hpos, hle, hnonneg, hmax, hforeign⟩, hused, hrow, haccount⟩ :=
      h.accounts
    exact ⟨⟨husernames, hids, hpos, hle, hnonneg, hmax, by simpa using hforeign⟩, hused, hrow,
      haccount⟩
  keyed := ⟨by simpa using h.keyed.nodup, by simpa using h.keyed.pos, by simpa using h.keyed.le,
    by simpa using h.keyed.nonneg⟩
  used := by simpa using h.used
  limit := by simpa using h.limit
  links := by simpa using h.links

/-- The links of a user go with the user. -/
theorem urls_accounts_step {request : Accounts.Request}
    (hcall : ∀ statement, request ≠ .url statement) :
    (Accounts.step hasher shardId db request).1.links =
      { db.links with urls := db.links.urls.filter fun url => request ≠ .delete url.userId } := by
  have hall : ∀ {request : Accounts.Request}, (∀ userId, request ≠ .delete userId) →
      (db.links.urls.filter fun url => request ≠ .delete url.userId) = db.links.urls :=
    fun hnot => List.filter_eq_self.mpr fun url _ => decide_eq_true (hnot url.userId)
  rw [Accounts.step_database]
  cases request with
  | create type username password salt stamp =>
    rw [hall (by simp)]
    show Accounts.Database.links (if type ≠ .readWrite then db else _) = db.links
    split_ifs
    · rfl
    · unfold Accounts.Database.addUser
      dsimp only
      split_ifs <;> rfl
  | generateToken username password stamp => rw [hall (by simp)]
  | update userId password salt =>
    rw [hall (by simp)]
    rfl
  | delete userId =>
    show { db.links with urls := db.links.urls.filter fun url => url.userId ≠ userId } = _
    simp only [ne_eq, Accounts.Request.delete.injEq, eq_comm]
  | url statement => exact absurd rfl (hcall statement)

theorem Represents.user (h : Represents hasher db a)
    {request : Accounts.Request} (hcall : ∀ statement, request ≠ .url statement) :
    ∃ b, Permits hasher.opens shardId a (.user request)
        (.ret (.user (Accounts.step hasher shardId db request).2)) b ∧
      Represents hasher (Accounts.step hasher shardId db request).1 b := by
  obtain ⟨directory, hpermits, haccounts⟩ :=
    Accounts.Represents.step db a.directory request h.accounts
  have hlinks : (Accounts.step hasher shardId db request).1.links = _ := urls_accounts_step hcall
  refine ⟨_, .user hcall hpermits, haccounts, ?_, ?_, ?_, ?_⟩
  · rw [hlinks]
    exact h.keyed.filter _
  · rw [hlinks]
    exact h.used
  · rw [hlinks]
    exact h.limit
  · intro id link
    rw [hlinks]
    show (a.links id).filter _ = some link ↔ _
    rw [Option.filter_eq_some_iff, h.links]
    constructor
    · rintro ⟨⟨row, hrow, hid, rfl⟩, hkept⟩
      exact ⟨row, List.mem_filter.mpr ⟨hrow, hkept⟩, hid, rfl⟩
    · rintro ⟨row, hrow, hid, rfl⟩
      obtain ⟨hrow, hkept⟩ := List.mem_filter.mp hrow
      exact ⟨⟨row, hrow, hid, rfl⟩, hkept⟩

/-! ### Calls -/

theorem Represents.create (h : Represents hasher db a) (shardId userId domainId : ℤ)
    (destinationUrl : String) :
    ∃ b, Permits hasher.opens shardId a (.create userId destinationUrl)
        (match (Backend.add db userId destinationUrl domainId).2 with
          | .ok id => created shardId id destinationUrl
          | .error error => .ret (.postgres error)) b ∧
      Represents hasher (Backend.add db userId destinationUrl domainId).1 b := by
  unfold Backend.add
  split_ifs with hlimit
  · refine ⟨a, .usedUp fun id hid => ?_, h⟩
    have hunused := hid.unused
    rw [h.used, hlimit] at hunused
    exact hunused ⟨hid.pos, hid.le⟩
  · rcases h.accounts.unknown_or userId with ⟨hnot, hunknown⟩ |
      ⟨user, huser, account, hid, rfl, haccount⟩
    · have hnone : ¬ ∃ user ∈ db.users, user.id = userId := by simpa using hnot
      simp only [Accounts.Database.urlStatement, if_neg hnone]
      exact ⟨_, .createUnknown hunknown (h.unused hlimit), h.next hlimit⟩
    · have hsome : ∃ user ∈ db.users, user.id = account.id := ⟨user, huser, hid⟩
      simp only [Accounts.Database.urlStatement, if_pos hsome]
      exact ⟨_, .create haccount (h.unused hlimit), h.add hlimit hsome⟩

theorem Represents.redirect (h : Represents hasher db a) (shortId : String) :
    Permits hasher.opens shardId a (.redirect shortId) (redirect shardId db shortId) a := by
  unfold Backend.redirect
  cases hparse : parseId shortId with
  | throw e => exact .failed rfl hparse
  | diverge => exact .hangs rfl hparse
  | ret id =>
    simp only [Exec.ret_bind, Links.Database.getByUrlId]
    rcases singleOrDefault_cases h.keyed.nodup id.index with ⟨row, hrow, hid, heq⟩ | ⟨hnot, heq⟩
    · rw [heq]
      have hlink : a.links id.index = some (linkOf row) := (h.links _ _).mpr ⟨row, hrow, hid, rfl⟩
      have hpermits : Permits hasher.opens shardId a (.redirect shortId) _ a := .redirect hparse hlink
      rw [← hid] at hpermits
      exact hpermits
    · rw [heq]
      exact .notFound hparse ((h.links_eq_none id.index).mpr hnot)

theorem permits_of_check {opens : ℕ → String → Set String} {type : ShardType} {banned : Bool}
    {request : Request} {answer : Exec Reply}
    (hcheck : check tryCreate type banned request = some (.executed answer)) :
    Permits opens shardId a request answer a := by
  cases request with
  | create userId destinationUrl =>
    have hcheck := Option.some.inj hcheck
    split_ifs at hcheck
    · obtain rfl := Stage.executed.inj hcheck
      exact .readOnly
    · rcases checkDestination_cases tryCreate banned destinationUrl with heq | ⟨uri, heq⟩
      · obtain rfl := Stage.executed.inj (heq.symm.trans hcheck)
        exact .badCreate
      · cases heq.symm.trans hcheck
  | update userId shortId destinationUrl =>
    have hcheck := Option.some.inj hcheck
    cases hparse : parseId shortId with
    | throw e =>
      rw [hparse] at hcheck
      obtain rfl := Stage.executed.inj hcheck
      exact .failed rfl hparse
    | diverge =>
      rw [hparse] at hcheck
      obtain rfl := Stage.executed.inj hcheck
      exact .hangs rfl hparse
    | ret id =>
      rw [hparse] at hcheck
      rcases checkDestination_cases tryCreate banned destinationUrl with heq | ⟨uri, heq⟩
      · obtain rfl := Stage.executed.inj (heq.symm.trans hcheck)
        exact .badUpdate
      · cases heq.symm.trans hcheck
  | _ => cases hcheck

/-- **The last statement of a call** does what the registry permits. -/
theorem Represents.execute (h : Represents hasher db a) {call : Call}
    {answer : Exec Reply} (hexecute : execute hasher shardId db call = some (db', answer)) :
    ∃ b, Permits hasher.opens shardId a call.request answer b ∧ Represents hasher db' b := by
  unfold Backend.execute at hexecute
  split at hexecute
  · cases hexecute
  · rename_i request hcall hrequest _
    obtain ⟨rfl, rfl⟩ := Prod.mk.inj (Option.some.inj hexecute)
    rw [hrequest]
    exact h.user hcall
  · rename_i userId destinationUrl domainId hrequest _
    rw [hrequest]
    obtain ⟨b, hpermits, hb⟩ := h.create shardId userId domainId destinationUrl
    refine ⟨b, ?_⟩
    split at hexecute
    · rename_i hadd
      obtain ⟨rfl, rfl⟩ := Prod.mk.inj (Option.some.inj hexecute)
      rw [hadd] at hpermits hb
      exact ⟨hpermits, hb⟩
    · rename_i hadd
      obtain ⟨rfl, rfl⟩ := Prod.mk.inj (Option.some.inj hexecute)
      rw [hadd] at hpermits hb
      exact ⟨hpermits, hb⟩
  · rename_i shortId hrequest _
    obtain ⟨rfl, rfl⟩ := Prod.mk.inj (Option.some.inj hexecute)
    rw [hrequest]
    exact ⟨a, h.redirect shortId, h⟩
  · rename_i userId shortId destinationUrl domainId hrequest _
    rw [hrequest]
    split at hexecute
    · rename_i id hparse
      obtain ⟨rfl, rfl⟩ := Prod.mk.inj (Option.some.inj hexecute)
      cases haffects : affects db id.index userId with
      | true =>
        obtain ⟨link, hlink, huser⟩ := (h.affects_iff _ _).mp haffects
        exact ⟨_, .update hparse hlink huser, h.update domainId destinationUrl hlink huser⟩
      | false =>
        rw [update_of_not_affects haffects]
        exact ⟨a, .updateOther hparse (h.affects_eq_false haffects), h⟩
    · cases hexecute
  · rename_i userId shortId hrequest _
    rw [hrequest]
    split at hexecute
    · rename_i id hparse
      obtain ⟨rfl, rfl⟩ := Prod.mk.inj (Option.some.inj hexecute)
      cases haffects : affects db id.index userId with
      | true =>
        obtain ⟨link, hlink, huser⟩ := (h.affects_iff _ _).mp haffects
        exact ⟨_, .delete hparse hlink huser, h.delete hlink huser⟩
      | false =>
        rw [delete_of_not_affects haffects]
        exact ⟨a, .deleteOther hparse (h.affects_eq_false haffects), h⟩
    · rename_i e hparse
      obtain ⟨rfl, rfl⟩ := Prod.mk.inj (Option.some.inj hexecute)
      exact ⟨a, .failed rfl hparse, h⟩
    · rename_i hparse
      obtain ⟨rfl, rfl⟩ := Prod.mk.inj (Option.some.inj hexecute)
      exact ⟨a, .hangs rfl hparse, h⟩
  · cases hexecute

/-! ## Main result -/

/-- **A step** does what the registry permits. -/
theorem step_moves {s t : Shard} {e : Event}
    (h : Represents hasher s.database a) (hstep : step env tryCreate hasher shardId s e = some t) :
    ∃ b, Represents hasher t.database b ∧
      Moves (Permits hasher.opens shardId) s.status a (acts s e) (commits tryCreate hasher shardId s e)
        t.status b := by
  have hcases := step_cases hstep
  generalize acts s e = seen at hcases ⊢
  generalize commits tryCreate hasher shardId s e = effects at hcases ⊢
  cases hcases with
  | receive request =>
    refine ⟨a, h, ?_⟩
    rw [status_receive]
    exact .call status_length
  | @passed n type banned request uri hn hcheck =>
    refine ⟨a, h, ?_⟩
    rw [status_setStage_waiting hn (.checked uri) rfl]
    exact .quiet
  | refused hn hcheck =>
    refine ⟨a, h, ?_⟩
    rw [status_setStage hn]
    exact .commit (Shard.status_eq hn) (permits_of_check hcheck)
  | @getOrAdd n request uri hn =>
    refine ⟨a, h.getOrAdd uri.host, ?_⟩
    show Moves _ _ _ _ _ (s.setStage n _ (.domain _)).status a
    rw [status_setStage_waiting hn (.domain _) rfl]
    exact .quiet
  | @execute n call db answer hn hexecute =>
    obtain ⟨b, hpermits, hb⟩ := h.execute hexecute
    refine ⟨b, hb, ?_⟩
    show Moves _ _ _ _ _ (s.setStage n call _).status b
    rw [status_setStage hn]
    exact .commit ((Shard.status_eq hn).trans (status_of_execute hexecute)) hpermits
  | answer hn =>
    refine ⟨a, h, ?_⟩
    rw [status_setStage hn]
    exact .answer (Shard.status_eq hn)
  | lose hn =>
    refine ⟨a, h, ?_⟩
    rw [status_setStage hn]
    exact .lose (status_ne_unused hn)
  | incrementVisit id => exact ⟨a, h.incrementVisit id, .quiet⟩

/-- What is seen of the calls of all shards. -/
def history (env : Globalization) (tryCreate : String → Option Uri)
    (hasher : Accounts.PasswordHasher) (es : List (ℤ × Event)) :
    List (Act (ℤ × ℕ) (ℤ × Request) (Exec Reply)) :=
  emitted (stepAt (step env tryCreate hasher)) (actsAt acts) (fun _ => .init) es

/-- **The shards are linearizable.** However calls overlap and whichever are lost, there is an
    order in which a registry for each shard may answer the calls as they were answered, and
    which keeps every call after those that were answered before it began; and the tables then
    show the registries. -/
theorem shards_linearizable {es : List (ℤ × Event)} {s : ℤ → Shard}
    (h : Run (stepAt (step env tryCreate hasher)) always (fun _ => .init) es s) :
    ∃ l b, Linearizes (specAt (Permits hasher.opens)) (fun _ => .init)
        (history env tryCreate hasher es) l b ∧
      ∀ r, Represents hasher (s r).database (b r) := by
  obtain ⟨b, hb, hl⟩ := h.linearizes_at (fun _ => represents_init) (fun _ => status_init)
    fun _ _ _ _ _ hr hs => step_moves hr hs
  exact ⟨_, b, hl, hb⟩

/-- A user creates a link; a deletion passes the redirect that began before it. -/
def overtakenRedirect : List (ℤ × Event) :=
  [.receive (.user (.create .readWrite "ann" "one" 1 ⟨"a", 10⟩)), .execute 0, .answer 0,
    .receive (.create 1 "https://example.com/1"), .check 1 .readWrite false, .getOrAdd 1,
    .execute 1, .answer 1, .receive (.redirect "1LafLC9"), .receive (.delete 1 "1LafLC9"),
    .execute 3, .execute 2, .answer 2, .answer 3].map fun e => (1, e)

theorem shards_linearizable_overtakenRedirect :
    ∃ s l b, Run (stepAt (step .invariantMode Owner.oneUri Accounts.saltedHasher)) always
        (fun _ => .init) overtakenRedirect s ∧
      history .invariantMode Owner.oneUri Accounts.saltedHasher overtakenRedirect =
        [.call (1, 0) (1, .user (.create .readWrite "ann" "one" 1 ⟨"a", 10⟩)),
          .answer (1, 0) (.ret (.user (.token ⟨"1:1", "a", "ann", 10⟩))),
          .call (1, 1) (1, .create 1 "https://example.com/1"),
          .answer (1, 1) (.ret (.url "1LafLC9" "https://example.com/1")),
          .call (1, 2) (1, .redirect "1LafLC9"), .call (1, 3) (1, .delete 1 "1LafLC9"),
          .answer (1, 2) (throw (.notFound "ShortId" none)),
          .answer (1, 3) (.ret (.success true))] ∧
      Linearizes (specAt (Permits Accounts.saltedHasher.opens)) (fun _ => .init)
        (history .invariantMode Owner.oneUri Accounts.saltedHasher overtakenRedirect) l b ∧
      ∀ r, Represents Accounts.saltedHasher (s r).database (b r) := by
  have hsome : (overtakenRedirect.foldlM
      (stepAt (step .invariantMode Owner.oneUri Accounts.saltedHasher)) fun _ => .init).isSome := by
    decide +kernel
  obtain ⟨s, hrun⟩ := exists_run hsome
  obtain ⟨l, b, hl, hb⟩ := shards_linearizable hrun
  exact ⟨s, l, b, hrun, by decide +kernel, hl, hb⟩

end

end Shortener.Backend
