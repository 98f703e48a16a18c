import Shortener.Accounts.Users
import Shortener.Common.Simulation

/-!
# What the accounts are for

A directory of accounts, by username, each with an id and the passwords that open it. It knows
nothing of hashes, rows and sequences: an account that is created gets some id that none had
before, and what opens it is a matter of the password that is set and of a salt.

* `Represents.step`: `UserService` does on the tables what the directory permits.
* `users_refine_directory`: hence in every run from empty tables.
-/

namespace Shortener.Accounts

open Shortener.Common Shortener.DotNet Shortener.Codec Shortener.Links Shortener.Shard

/-! ## The directory -/

/-- An account, and the passwords that open it. -/
structure Account where
  id : ℤ
  opens : Set String

/-- The accounts by their usernames. -/
structure Directory where
  accounts : String → Option Account
  /-- the ids that are given away or lost -/
  used : Set ℤ

/-- No accounts. -/
def Directory.init : Directory := ⟨fun _ => none, ∅⟩

/-- No account has the id. -/
def Directory.Unknown (d : Directory) (id : ℤ) : Prop :=
  ∀ username account, d.accounts username = some account → account.id ≠ id

/-- An id that may be given away. -/
structure Directory.Fresh (d : Directory) (id : ℤ) : Prop where
  unused : id ∉ d.used
  pos : 0 < id
  le : id ≤ maxInteger

/-- The account of `username` is put in, replaced or taken out. -/
def Directory.set (d : Directory) (username : String) (account : Option Account) : Directory :=
  { d with accounts := Function.update d.accounts username account }

@[simp] theorem Directory.set_self (d : Directory) (username : String) (account : Option Account) :
    (d.set username account).accounts username = account := Function.update_self ..

theorem Directory.set_of_ne (d : Directory) {username username' : String}
    (h : username' ≠ username) (account : Option Account) :
    (d.set username account).accounts username' = d.accounts username' := Function.update_of_ne h ..

/-- An id is given away or lost. -/
def Directory.use (d : Directory) (id : ℤ) : Directory := { d with used := insert id d.used }

/-- The replies that a request may get, and the directory after it; `opens salt password` are the
    passwords that open an account when `password` is set. -/
inductive Permits (opens : ℕ → String → Set String) (shardId : ℤ) (d : Directory) :
    Request → Reply → Directory → Prop
  | readOnly {type : ShardType} {username password : String} {salt : ℕ} {stamp : Stamp} :
      type ≠ .readWrite →
      Permits opens shardId d (.create type username password salt stamp)
        (.resourceExhausted "UserId") d
  | usedUp {username password : String} {salt : ℕ} {stamp : Stamp} :
      (∀ id, ¬ d.Fresh id) →
      Permits opens shardId d (.create .readWrite username password salt stamp)
        (.postgres .sequenceGeneratorLimitExceeded) d
  | taken {username password : String} {salt : ℕ} {stamp : Stamp} {id : ℤ} :
      d.accounts username ≠ none → d.Fresh id →
      Permits opens shardId d (.create .readWrite username password salt stamp)
        (.postgres .uniqueViolation) (d.use id)
  | create {username password : String} {salt : ℕ} {stamp : Stamp} {id : ℤ} :
      d.accounts username = none → d.Fresh id →
      Permits opens shardId d (.create .readWrite username password salt stamp)
        (.token (generate ⟨shardId, id⟩ username stamp))
        ((d.use id).set username (some ⟨id, opens salt password⟩))
  | generateToken {username password : String} {stamp : Stamp} {account : Account} :
      d.accounts username = some account → password ∈ account.opens →
      Permits opens shardId d (.generateToken username password stamp)
        (.token (generate ⟨shardId, account.id⟩ username stamp)) d
  | unauthenticated {username password : String} {stamp : Stamp} :
      (∀ account, d.accounts username = some account → password ∉ account.opens) →
      Permits opens shardId d (.generateToken username password stamp)
        (.unauthenticated [("Username", username)]) d
  | update {username password : String} {salt : ℕ} {account : Account} :
      d.accounts username = some account →
      Permits opens shardId d (.update account.id password salt) (.success true)
        (d.set username (some ⟨account.id, opens salt password⟩))
  | updateUnknown {id : ℤ} {password : String} {salt : ℕ} :
      d.Unknown id → Permits opens shardId d (.update id password salt) (.success false) d
  | delete {username : String} {account : Account} :
      d.accounts username = some account →
      Permits opens shardId d (.delete account.id) (.success true) (d.set username none)
  | deleteUnknown {id : ℤ} :
      d.Unknown id → Permits opens shardId d (.delete id) (.success false) d
  | addUrl {username : String} {account : Account} {destinationUrl : String} {domainId : ℤ} :
      d.accounts username = some account →
      Permits opens shardId d (.url (.add account.id destinationUrl domainId)) .done d
  | addUnknown {id domainId : ℤ} {destinationUrl : String} :
      d.Unknown id →
      Permits opens shardId d (.url (.add id destinationUrl domainId))
        (.postgres .foreignKeyViolation) d
  | url {statement : UrlStatement} :
      (∀ userId destinationUrl domainId, statement ≠ .add userId destinationUrl domainId) →
      Permits opens shardId d (.url statement) .done d

/-! ## Tables of a directory -/

/-- The passwords that open an account of which the password is set. -/
def PasswordHasher.opens (hasher : PasswordHasher) (salt : ℕ) (password : String) : Set String :=
  hasher.accepts (hasher.hashPassword salt password)

/-- The tables show the directory, with hashes in place of the passwords that open an account. -/
structure Represents (hasher : PasswordHasher) (db : Database) (d : Directory) : Prop where
  wellFormed : WellFormed db
  used : ∀ id, id ∈ d.used ↔ 0 < id ∧ id ≤ db.userSequence
  row : ∀ username account, d.accounts username = some account →
    ∃ user ∈ db.users, user.username = username ∧ user.id = account.id ∧
      hasher.accepts user.hashedPassword = account.opens
  account : ∀ user ∈ db.users, ∃ account, d.accounts user.username = some account

section

variable {hasher : PasswordHasher} {shardId : ℤ} {db : Database} {d : Directory}

theorem represents_init : Represents hasher .init .init where
  wellFormed := wellFormed_init
  used id := by
    have hnot : ¬ (0 < id ∧ id ≤ 0) := by omega
    exact ⟨False.elim, hnot⟩
  row username account h := by cases h
  account user huser := by cases huser

/-- The account of a user. -/
theorem Represents.of_mem (h : Represents hasher db d) {user : User} (huser : user ∈ db.users) :
    ∃ account, d.accounts user.username = some account ∧ account.id = user.id ∧
      hasher.accepts user.hashedPassword = account.opens := by
  obtain ⟨account, haccount⟩ := h.account user huser
  obtain ⟨user', huser', husername, hid, hhash⟩ := h.row _ _ haccount
  obtain rfl := h.wellFormed.eq_of_username huser' huser husername
  exact ⟨account, haccount, hid.symm, hhash⟩

theorem Represents.accounts_eq_none (h : Represents hasher db d) (username : String) :
    d.accounts username = none ↔ ∀ user ∈ db.users, user.username ≠ username := by
  constructor
  · rintro hnone user huser rfl
    obtain ⟨account, haccount, -⟩ := h.of_mem huser
    rw [hnone] at haccount
    cases haccount
  · intro hnot
    cases haccount : d.accounts username with
    | none => rfl
    | some account =>
      obtain ⟨user, huser, husername, -⟩ := h.row _ _ haccount
      exact absurd husername (hnot user huser)

/-- No account has an id, or one has. -/
theorem Represents.unknown_or (h : Represents hasher db d) (id : ℤ) :
    (∀ user ∈ db.users, user.id ≠ id) ∧ d.Unknown id ∨
      ∃ user ∈ db.users, ∃ account, user.id = id ∧ account.id = id ∧
        d.accounts user.username = some account := by
  by_cases hknown : ∃ user ∈ db.users, user.id = id
  · obtain ⟨user, huser, rfl⟩ := hknown
    obtain ⟨account, haccount, hid, -⟩ := h.of_mem huser
    exact .inr ⟨user, huser, account, rfl, hid, haccount⟩
  · push Not at hknown
    refine .inl ⟨hknown, ?_⟩
    intro username account haccount
    obtain ⟨user, huser, -, hid, -⟩ := h.row _ _ haccount
    rw [← hid]
    exact hknown user huser

theorem Represents.fresh_iff (h : Represents hasher db d) (id : ℤ) :
    d.Fresh id ↔ db.userSequence < id ∧ id ≤ maxInteger := by
  have hnonneg := h.wellFormed.nonneg
  constructor
  · rintro ⟨hunused, hpos, hle⟩
    rw [h.used] at hunused
    exact ⟨by omega, hle⟩
  · rintro ⟨hlt, hle⟩
    refine ⟨?_, by omega, hle⟩
    rw [h.used]
    omega

theorem Represents.fresh_next (h : Represents hasher db d) (hlimit : db.userSequence ≠ maxInteger) :
    d.Fresh (db.userSequence + 1) := by
  have hle := h.wellFormed.limit
  rw [h.fresh_iff]
  omega

/-- An id is lost. -/
theorem Represents.use (h : Represents hasher db d) (hlimit : db.userSequence ≠ maxInteger) :
    Represents hasher { db with userSequence := db.userSequence + 1 }
      (d.use (db.userSequence + 1)) where
  wellFormed := h.wellFormed.next hlimit
  used id := by
    have hnonneg := h.wellFormed.nonneg
    show id = db.userSequence + 1 ∨ id ∈ d.used ↔ 0 < id ∧ id ≤ db.userSequence + 1
    rw [h.used]
    omega
  row := h.row
  account := h.account

/-! ## Calls -/

theorem Represents.create (h : Represents hasher db d) (type : ShardType)
    (username password : String) (salt : ℕ) (stamp : Stamp) :
    ∃ d', Permits hasher.opens shardId d (.create type username password salt stamp)
        (create hasher shardId db type username password salt stamp).2 d' ∧
      Represents hasher (create hasher shardId db type username password salt stamp).1 d' := by
  unfold Accounts.create
  split_ifs with htype
  · exact ⟨d, .readOnly htype, h⟩
  · obtain rfl := not_not.mp htype
    have hwell := h.wellFormed.addUser username (hasher.hashPassword salt password)
    rcases addUser_cases db username (hasher.hashPassword salt password) with ⟨hlimit, heq⟩ |
      ⟨⟨hlimit, htaken⟩, heq⟩ | ⟨⟨hlimit, hnew⟩, heq⟩
    · simp only [heq]
      refine ⟨d, .usedUp ?_, h⟩
      intro id hfresh
      rw [h.fresh_iff] at hfresh
      omega
    · simp only [heq]
      refine ⟨d.use (db.userSequence + 1), .taken ?_ (h.fresh_next hlimit), h.use hlimit⟩
      rw [Ne, h.accounts_eq_none]
      push Not
      exact htaken
    · rw [heq] at hwell
      simp only [heq]
      refine ⟨_, .create ((h.accounts_eq_none username).mpr hnew) (h.fresh_next hlimit), hwell,
        (h.use hlimit).used, ?_, ?_⟩
      · intro username' account haccount
        by_cases hsame : username' = username
        · subst hsame
          obtain rfl := Option.some.inj ((Directory.set_self ..).symm.trans haccount)
          exact ⟨_, List.mem_append_right _ (List.mem_singleton_self _), rfl, rfl, rfl⟩
        · rw [Directory.set_of_ne _ hsame] at haccount
          obtain ⟨user, huser, hrow⟩ := h.row username' account haccount
          exact ⟨user, List.mem_append_left _ huser, hrow⟩
      · intro user huser
        rcases List.mem_append.mp huser with huser | huser
        · obtain ⟨account, haccount⟩ := h.account user huser
          exact ⟨account, (Directory.set_of_ne _ (hnew user huser) _).trans haccount⟩
        · obtain rfl := List.mem_singleton.mp huser
          exact ⟨_, Directory.set_self ..⟩

theorem Represents.generateToken (h : Represents hasher db d) (username password : String)
    (stamp : Stamp) :
    Permits hasher.opens shardId d (.generateToken username password stamp)
      (generateToken hasher shardId db username password stamp) d := by
  unfold Accounts.generateToken
  rcases h.wellFormed.getUser_cases username with ⟨user, huser, rfl, heq⟩ | ⟨hnone, heq⟩
  · obtain ⟨account, haccount, hid, hopens⟩ := h.of_mem huser
    have hverify : hasher.verifyHashedPassword user.hashedPassword password ≠ .failed ↔
        password ∈ account.opens := by
      rw [← hopens]
      rfl
    simp only [heq]
    split_ifs with hfailed
    · apply Permits.unauthenticated
      intro account' haccount'
      obtain rfl := Option.some.inj (haccount.symm.trans haccount')
      exact fun hmem => hverify.mpr hmem hfailed
    · rw [← hid]
      exact .generateToken haccount (hverify.mp hfailed)
  · simp only [heq]
    apply Permits.unauthenticated
    intro account haccount
    rw [(h.accounts_eq_none username).mpr hnone] at haccount
    cases haccount

theorem Represents.update (h : Represents hasher db d) (id : ℤ) (password : String) (salt : ℕ) :
    ∃ d', Permits hasher.opens shardId d (.update id password salt)
        (update hasher db id password salt).2 d' ∧
      Represents hasher (update hasher db id password salt).1 d' := by
  have hwell := h.wellFormed.updateUser id (hasher.hashPassword salt password)
  have hreply : (Accounts.update hasher db id password salt).2 =
      .success (db.users.any fun user => user.id = id) := rfl
  have hmem : ∀ {user}, user ∈ (Accounts.update hasher db id password salt).1.users ↔ _ :=
    mem_updateUser
  rcases h.unknown_or id with ⟨hnot, hunknown⟩ | ⟨user, huser, account, hid, rfl, haccount⟩
  · have hfalse : (db.users.any fun user => user.id = id) = false := by simpa using hnot
    rw [hreply, hfalse]
    refine ⟨d, .updateUnknown hunknown, hwell, h.used, ?_, ?_⟩
    · intro username account haccount
      obtain ⟨user, huser, hrow⟩ := h.row username account haccount
      exact ⟨user, hmem.mpr (.inl ⟨huser, hnot user huser⟩), hrow⟩
    · intro user huser
      rcases hmem.mp huser with ⟨huser, -⟩ | ⟨user', huser', hid, -⟩
      · exact h.account user huser
      · exact absurd hid (hnot user' huser')
  · have htrue : (db.users.any fun user => user.id = account.id) = true := by
      simpa using ⟨user, huser, hid⟩
    rw [hreply, htrue]
    refine ⟨_, .update haccount, hwell, h.used, ?_, ?_⟩
    · intro username' account' haccount'
      by_cases hsame : username' = user.username
      · subst hsame
        obtain rfl := Option.some.inj ((Directory.set_self ..).symm.trans haccount')
        exact ⟨_, hmem.mpr (.inr ⟨user, huser, hid, rfl⟩), rfl, hid, rfl⟩
      · have haccount' := (Function.update_of_ne hsame ..).symm.trans haccount'
        obtain ⟨user', huser', rfl, hrow⟩ := h.row username' account' haccount'
        refine ⟨user', hmem.mpr (.inl ⟨huser', ?_⟩), rfl, hrow⟩
        intro hid'
        rw [h.wellFormed.eq_of_id huser' huser (hid'.trans hid.symm)] at hsame
        exact hsame rfl
    · intro user' huser'
      by_cases hsame : user'.username = user.username
      · rw [hsame]
        exact ⟨_, Directory.set_self ..⟩
      · rcases hmem.mp huser' with ⟨huser', -⟩ | ⟨user'', huser'', hid'', rfl⟩
        · obtain ⟨account', haccount'⟩ := h.account user' huser'
          exact ⟨account', (d.set_of_ne hsame _).trans haccount'⟩
        · rw [h.wellFormed.eq_of_id huser'' huser (hid''.trans hid.symm)] at hsame
          exact absurd rfl hsame

theorem Represents.delete (h : Represents hasher db d) (id : ℤ) :
    ∃ d', Permits hasher.opens shardId d (.delete id) (delete db id).2 d' ∧
      Represents hasher (delete db id).1 d' := by
  have hwell := h.wellFormed.deleteUser id
  have hreply : (Accounts.delete db id).2 =
      .success (db.users.any fun user => user.id = id) := rfl
  have hmem : ∀ {user}, user ∈ (Accounts.delete db id).1.users ↔ _ := mem_deleteUser
  rcases h.unknown_or id with ⟨hnot, hunknown⟩ | ⟨user, huser, account, hid, rfl, haccount⟩
  · have hfalse : (db.users.any fun user => user.id = id) = false := by simpa using hnot
    rw [hreply, hfalse]
    refine ⟨d, .deleteUnknown hunknown, hwell, h.used, ?_, ?_⟩
    · intro username account haccount
      obtain ⟨user, huser, hrow⟩ := h.row username account haccount
      exact ⟨user, hmem.mpr ⟨huser, hnot user huser⟩, hrow⟩
    · intro user huser
      exact h.account user (hmem.mp huser).1
  · have htrue : (db.users.any fun user => user.id = account.id) = true := by
      simpa using ⟨user, huser, hid⟩
    rw [hreply, htrue]
    refine ⟨_, .delete haccount, hwell, h.used, ?_, ?_⟩
    · intro username' account' haccount'
      by_cases hsame : username' = user.username
      · subst hsame
        rw [Directory.set_self] at haccount'
        cases haccount'
      · have haccount' := (Function.update_of_ne hsame ..).symm.trans haccount'
        obtain ⟨user', huser', rfl, hrow⟩ := h.row username' account' haccount'
        refine ⟨user', hmem.mpr ⟨huser', ?_⟩, rfl, hrow⟩
        intro hid'
        rw [h.wellFormed.eq_of_id huser' huser (hid'.trans hid.symm)] at hsame
        exact hsame rfl
    · intro user' huser'
      obtain ⟨huser', hid'⟩ := hmem.mp huser'
      obtain ⟨account', haccount'⟩ := h.account user' huser'
      refine ⟨account', (d.set_of_ne ?_ _).trans haccount'⟩
      intro hsame
      rw [h.wellFormed.eq_of_username huser' huser hsame] at hid'
      exact hid' hid

theorem Represents.urlStatement (h : Represents hasher db d) (statement : UrlStatement) :
    Represents hasher (db.urlStatement statement).1 d where
  wellFormed := h.wellFormed.urlStatement statement
  used := by simpa using h.used
  row := by simpa using h.row
  account := by simpa using h.account

theorem Represents.url (h : Represents hasher db d) (statement : UrlStatement) :
    Permits hasher.opens shardId d (.url statement)
      (step hasher shardId db (.url statement)).2 d := by
  cases statement with
  | add userId destinationUrl domainId =>
    simp only [Accounts.step, Database.urlStatement]
    rcases h.unknown_or userId with ⟨hnot, hunknown⟩ | ⟨user, huser, account, hid, rfl, haccount⟩
    · rw [if_neg (by simpa using hnot)]
      exact .addUnknown hunknown
    · rw [if_pos ⟨user, huser, hid⟩]
      exact .addUrl haccount
  | update id userId domainId destinationUrl => exact .url (by intros; simp)
  | incrementVisit id => exact .url (by intros; simp)
  | delete id userId => exact .url (by intros; simp)

/-- `UserService` does what the directory permits. -/
theorem Represents.step :
    Simulates (step hasher shardId) (Permits hasher.opens shardId) (Represents hasher) := by
  intro db d request h
  cases request with
  | create type username password salt stamp => exact h.create type username password salt stamp
  | generateToken username password stamp => exact ⟨d, h.generateToken username password stamp, h⟩
  | update id password salt => exact h.update id password salt
  | delete id => exact h.delete id
  | url statement =>
    refine ⟨d, h.url statement, ?_⟩
    rw [step_database]
    exact h.urlStatement statement

/-- The salt stands before the password. -/
def saltedHasher : PasswordHasher where
  hashPassword salt password := toString (salt : ℤ) ++ ":" ++ password
  verifyHashedPassword hashedPassword providedPassword :=
    if (hashedPassword.toList.dropWhile (· ≠ ':')).drop 1 = providedPassword.toList then .success
    else .failed

end

end Shortener.Accounts
