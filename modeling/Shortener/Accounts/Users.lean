import Shortener.Links.Frontend
import Shortener.Shard.ShardType

/-!
# Accounts of a shard

The tables `User` and `Url` of a shard with their constraints
(`Shortener.GrpcBackend/Data/BackendDbContext.cs`), the statements of `UserRepository` and
`UrlRepository` that change them, and the calls of `UserService`
(`Shortener.GrpcBackend/Services/UserService.cs`). Each call runs one statement, so calls take
effect one after the other. A token is its claims; the issuer and the audience, which are the same
in all tokens, and the signature are left out.

* `WellFormed.step`: calls keep the constraints of the tables.
* `WellFormed.getUser_cases`: at most one user has a username.
-/

namespace Shortener.Accounts

open Shortener.Common Shortener.DotNet Shortener.Codec Shortener.Links Shortener.Shard

/-! ## Passwords and tokens -/

/-- `PasswordVerificationResult`. -/
inductive PasswordVerificationResult
  | failed
  | success
  | successRehashNeeded
  deriving DecidableEq, Repr

/-- `IPasswordHasher<User>`, which ignores the user; a hash depends on a random salt. -/
structure PasswordHasher where
  hashPassword : (salt : ℕ) → (password : String) → String
  verifyHashedPassword : (hashedPassword providedPassword : String) → PasswordVerificationResult

/-- The passwords that `VerifyHashedPassword` lets pass for a hash. -/
def PasswordHasher.accepts (hasher : PasswordHasher) (hashedPassword : String) : Set String :=
  {providedPassword | hasher.verifyHashedPassword hashedPassword providedPassword ≠ .failed}

/-- What `JwtService.Generate` adds to a token: a new `Guid`, and the time at which the token
    expires, `JWT_EXPIRATION_MINUTES` from then. -/
structure Stamp where
  jti : String
  expires : ℤ
  deriving DecidableEq, Repr

/-- The claims of a token. -/
structure Token where
  sub : String
  jti : String
  uniqueName : String
  expires : ℤ
  deriving DecidableEq, Repr

/-- `JwtService.Generate`. -/
def generate (userId : UserId) (username : String) (stamp : Stamp) : Token where
  sub := userId.toString
  jti := stamp.jti
  uniqueName := username
  expires := stamp.expires

/-! ## Tables and statements -/

/-- A row of table `User`. -/
structure User where
  id : ℤ
  username : String
  hashedPassword : String
  deriving DecidableEq, Repr

/-- The tables of a shard, with the sequence behind the ids of the users. -/
structure Database where
  users : List User
  userSequence : ℤ
  links : Links.Database
  deriving DecidableEq, Repr

/-- Empty tables. -/
def Database.init : Database := ⟨[], 0, .init⟩

/-- The `SqlState` of a `PostgresException`. -/
inductive PostgresError
  | uniqueViolation
  | foreignKeyViolation
  /-- of `nextval`, or of an `INTEGER` -/
  | sequenceGeneratorLimitExceeded
  deriving DecidableEq, Repr

/-- The largest `INTEGER`. -/
def maxInteger : ℤ := 2 ^ 31 - 1

/-- `UserRepository.Add`. The sequence is not set back when the username is taken. -/
def Database.addUser (db : Database) (username hashedPassword : String) :
    Database × Except PostgresError User :=
  if db.userSequence = maxInteger then (db, .error .sequenceGeneratorLimitExceeded)
  else
    let user : User := ⟨db.userSequence + 1, username, hashedPassword⟩
    if ∃ other ∈ db.users, other.username = username then
      ({ db with userSequence := user.id }, .error .uniqueViolation)
    else ({ db with users := db.users ++ [user], userSequence := user.id }, .ok user)

/-- `UserRepository.Get`. -/
def Database.getUser (db : Database) (username : String) : Except String (Option User) :=
  singleOrDefault (db.users.filter fun user => user.username = username)

/-- `UserRepository.Update`. -/
def Database.updateUser (db : Database) (id : ℤ) (hashedPassword : String) : Database × Bool :=
  ({ db with
      users := db.users.map fun user =>
        if user.id = id then { user with hashedPassword := hashedPassword } else user },
    db.users.any fun user => user.id = id)

/-- `UserRepository.Delete`; `OnDelete(DeleteBehavior.Cascade)` takes the links along. -/
def Database.deleteUser (db : Database) (id : ℤ) : Database × Bool :=
  ({ db with
      users := db.users.filter fun user => user.id ≠ id
      links := { db.links with urls := db.links.urls.filter fun url => url.userId ≠ id } },
    db.users.any fun user => user.id = id)

/-- The statements of `UrlRepository`. -/
inductive UrlStatement
  | add (userId : ℤ) (destinationUrl : String) (domainId : ℤ)
  | update (id userId domainId : ℤ) (destinationUrl : String)
  | incrementVisit (id : ℤ)
  | delete (id userId : ℤ)
  deriving DecidableEq, Repr

/-- A statement of `UrlRepository`, and whether it fails on the foreign key of `UserId`. -/
def Database.urlStatement (db : Database) : UrlStatement → Database × Except PostgresError Unit
  | .add userId destinationUrl domainId =>
    if ∃ user ∈ db.users, user.id = userId then
      ({ db with links := db.links.add userId destinationUrl domainId }, .ok ())
    else
      ({ db with links := { db.links with urlSequence := db.links.urlSequence + 1 } },
        .error .foreignKeyViolation)
  | .update id userId domainId destinationUrl =>
    ({ db with links := db.links.update id userId domainId destinationUrl }, .ok ())
  | .incrementVisit id => ({ db with links := db.links.incrementVisit id }, .ok ())
  | .delete id userId => ({ db with links := db.links.delete id userId }, .ok ())

/-! ## Calls -/

/-- The calls of `UserService`, and the statements of `UrlService`. -/
inductive Request
  /-- `type` is the type of the shard; `salt` and `stamp` are drawn by the call. -/
  | create (type : ShardType) (username password : String) (salt : ℕ) (stamp : Stamp)
  | generateToken (username password : String) (stamp : Stamp)
  | update (userId : ℤ) (password : String) (salt : ℕ)
  | delete (userId : ℤ)
  /-- a statement of `UrlService` -/
  | url (statement : UrlStatement)
  deriving DecidableEq, Repr

/-- What is answered to them. -/
inductive Reply
  | token (token : Token)
  | success (success : Bool)
  | done
  /-- `RpcExceptionUtils.ResourceExhausted` -/
  | resourceExhausted (subject : String)
  /-- `RpcExceptionUtils.Unauthenticated` -/
  | unauthenticated (metadata : List (String × String))
  | postgres (error : PostgresError)
  /-- an exception of `SingleOrDefaultAsync` -/
  | exception (message : String)
  deriving DecidableEq, Repr

section

variable (hasher : PasswordHasher) (shardId : ℤ)

/-- `UserService.Create`. -/
def create (db : Database) (type : ShardType) (username password : String) (salt : ℕ)
    (stamp : Stamp) : Database × Reply :=
  if type ≠ .readWrite then (db, .resourceExhausted "UserId")
  else
    let hashedPassword := hasher.hashPassword salt password
    match db.addUser username hashedPassword with
    | (db, .ok user) => (db, .token (generate ⟨shardId, user.id⟩ user.username stamp))
    | (db, .error error) => (db, .postgres error)

/-- `UserService.GenerateToken`. -/
def generateToken (db : Database) (username password : String) (stamp : Stamp) : Reply :=
  match db.getUser username with
  | .error message => .exception message
  | .ok none => .unauthenticated [("Username", username)]
  | .ok (some user) =>
    if hasher.verifyHashedPassword user.hashedPassword password = .failed then
      .unauthenticated [("Username", username)]
    else .token (generate ⟨shardId, user.id⟩ user.username stamp)

/-- `UserService.Update`. -/
def update (db : Database) (userId : ℤ) (password : String) (salt : ℕ) : Database × Reply :=
  let (db, success) := db.updateUser userId (hasher.hashPassword salt password)
  (db, .success success)

/-- `UserService.Delete`. -/
def delete (db : Database) (userId : ℤ) : Database × Reply :=
  let (db, success) := db.deleteUser userId
  (db, .success success)

/-- A call runs to its end. -/
def step (db : Database) : Request → Database × Reply
  | .create type username password salt stamp =>
    create hasher shardId db type username password salt stamp
  | .generateToken username password stamp =>
    (db, generateToken hasher shardId db username password stamp)
  | .update userId password salt => update hasher db userId password salt
  | .delete userId => delete db userId
  | .url statement =>
    match db.urlStatement statement with
    | (db, .ok ()) => (db, .done)
    | (db, .error error) => (db, .postgres error)

end

/-! ## Well-formed tables -/

/-- The constraints of the tables, and how far the sequence has come. -/
structure WellFormed (db : Database) : Prop where
  usernames : (db.users.map User.username).Nodup
  ids : (db.users.map User.id).Nodup
  pos : ∀ user ∈ db.users, 0 < user.id
  le : ∀ user ∈ db.users, user.id ≤ db.userSequence
  nonneg : 0 ≤ db.userSequence
  limit : db.userSequence ≤ maxInteger
  foreignKey : ∀ url ∈ db.links.urls, ∃ user ∈ db.users, user.id = url.userId

theorem wellFormed_init : WellFormed .init :=
  ⟨by simp [Database.init], by simp [Database.init], by simp [Database.init],
    by simp [Database.init], le_rfl, by decide, by simp [Database.init, Links.Database.init]⟩

section

variable {hasher : PasswordHasher} {shardId : ℤ} {db : Database}

theorem WellFormed.eq_of_id (h : WellFormed db) {user user' : User} (huser : user ∈ db.users)
    (huser' : user' ∈ db.users) (hid : user.id = user'.id) : user = user' :=
  List.inj_on_of_nodup_map h.ids huser huser' hid

theorem WellFormed.eq_of_username (h : WellFormed db) {user user' : User} (huser : user ∈ db.users)
    (huser' : user' ∈ db.users) (husername : user.username = user'.username) : user = user' :=
  List.inj_on_of_nodup_map h.usernames huser huser' husername

/-- `SingleOrDefaultAsync` does not throw. -/
theorem WellFormed.getUser_cases (h : WellFormed db) (username : String) :
    (∃ user ∈ db.users, user.username = username ∧ db.getUser username = .ok (some user)) ∨
      (∀ user ∈ db.users, user.username ≠ username) ∧ db.getUser username = .ok none :=
  singleOrDefault_cases h.usernames username

theorem addUser_cases (db : Database) (username hashedPassword : String) :
    db.userSequence = maxInteger ∧
      db.addUser username hashedPassword = (db, .error .sequenceGeneratorLimitExceeded) ∨
    (db.userSequence ≠ maxInteger ∧ ∃ other ∈ db.users, other.username = username) ∧
      db.addUser username hashedPassword =
        ({ db with userSequence := db.userSequence + 1 }, .error .uniqueViolation) ∨
    (db.userSequence ≠ maxInteger ∧ ∀ other ∈ db.users, other.username ≠ username) ∧
      db.addUser username hashedPassword =
        ({ db with
            users := db.users ++ [⟨db.userSequence + 1, username, hashedPassword⟩]
            userSequence := db.userSequence + 1 },
          .ok ⟨db.userSequence + 1, username, hashedPassword⟩) := by
  unfold Database.addUser
  split_ifs with hlimit htaken
  · exact .inl ⟨hlimit, rfl⟩
  · exact .inr (.inl ⟨⟨hlimit, htaken⟩, rfl⟩)
  · refine .inr (.inr ⟨⟨hlimit, ?_⟩, rfl⟩)
    intro other hother husername
    exact htaken ⟨other, hother, husername⟩

/-- Counting up the sequence. -/
theorem WellFormed.next (h : WellFormed db) (hlimit : db.userSequence ≠ maxInteger) :
    WellFormed { db with userSequence := db.userSequence + 1 } where
  usernames := h.usernames
  ids := h.ids
  pos := h.pos
  le user huser := by
    have hle := h.le user huser
    show user.id ≤ db.userSequence + 1
    omega
  nonneg := by
    have hnonneg := h.nonneg
    show 0 ≤ db.userSequence + 1
    omega
  limit := by
    have hle := h.limit
    show db.userSequence + 1 ≤ maxInteger
    omega
  foreignKey := h.foreignKey

theorem WellFormed.addUser (h : WellFormed db) (username hashedPassword : String) :
    WellFormed (db.addUser username hashedPassword).1 := by
  rcases addUser_cases db username hashedPassword with ⟨-, heq⟩ | ⟨⟨hlimit, -⟩, heq⟩ |
    ⟨⟨hlimit, hnew⟩, heq⟩
  · rwa [heq]
  · rw [heq]
    exact h.next hlimit
  · rw [heq]
    have hnext := h.next hlimit
    refine ⟨?_, ?_, ?_, ?_, hnext.nonneg, hnext.limit, ?_⟩
    · simp only [List.map_append, List.map_cons, List.map_nil]
      refine h.usernames.append (List.nodup_singleton _) ?_
      simpa [List.disjoint_singleton] using hnew
    · simp only [List.map_append, List.map_cons, List.map_nil]
      refine h.ids.append (List.nodup_singleton _) ?_
      rw [List.disjoint_singleton]
      intro hmem
      obtain ⟨other, hother, hid⟩ := List.mem_map.mp hmem
      have hle := h.le other hother
      omega
    · intro user huser
      rcases List.mem_append.mp huser with huser | huser
      · exact h.pos user huser
      · obtain rfl := List.mem_singleton.mp huser
        have hnonneg := h.nonneg
        show 0 < db.userSequence + 1
        omega
    · intro user huser
      rcases List.mem_append.mp huser with huser | huser
      · exact hnext.le user huser
      · obtain rfl := List.mem_singleton.mp huser
        exact le_rfl
    · intro url hurl
      obtain ⟨user, huser, hid⟩ := h.foreignKey url hurl
      exact ⟨user, List.mem_append_left _ huser, hid⟩

/-- A user after `Update` is one from before, maybe with another password. -/
theorem mem_updateUser {id : ℤ} {hashedPassword : String} {user : User} :
    user ∈ (db.updateUser id hashedPassword).1.users ↔
      user ∈ db.users ∧ user.id ≠ id ∨
        ∃ user' ∈ db.users, user'.id = id ∧ user = ⟨user'.id, user'.username, hashedPassword⟩ := by
  show user ∈ db.users.map _ ↔ _
  rw [List.mem_map]
  constructor
  · rintro ⟨user', huser', rfl⟩
    split_ifs with hid
    · exact .inr ⟨user', huser', hid, rfl⟩
    · exact .inl ⟨huser', hid⟩
  · rintro (⟨huser, hid⟩ | ⟨user', huser', hid, rfl⟩)
    · exact ⟨user, huser, if_neg hid⟩
    · exact ⟨user', huser', if_pos hid⟩

theorem WellFormed.updateUser (h : WellFormed db) (id : ℤ) (hashedPassword : String) :
    WellFormed (db.updateUser id hashedPassword).1 := by
  have hkept : ∀ {α : Type} (f : User → α),
      (∀ user : User, f ⟨user.id, user.username, hashedPassword⟩ = f user) →
      (db.updateUser id hashedPassword).1.users.map f = db.users.map f := by
    intro α f hf
    show (db.users.map _).map f = _
    rw [List.map_map]
    apply List.map_congr_left
    intro user _
    show f (if user.id = id then _ else user) = f user
    split_ifs
    · exact hf user
    · rfl
  refine ⟨?_, ?_, ?_, ?_, h.nonneg, h.limit, ?_⟩
  · rw [hkept User.username fun _ => rfl]
    exact h.usernames
  · rw [hkept User.id fun _ => rfl]
    exact h.ids
  · intro user huser
    rcases mem_updateUser.mp huser with ⟨huser, -⟩ | ⟨user', huser', -, rfl⟩
    · exact h.pos user huser
    · exact h.pos user' huser'
  · intro user huser
    rcases mem_updateUser.mp huser with ⟨huser, -⟩ | ⟨user', huser', -, rfl⟩
    · exact h.le user huser
    · exact h.le user' huser'
  · intro url hurl
    obtain ⟨user, huser, huserId⟩ := h.foreignKey url hurl
    by_cases hid : user.id = id
    · exact ⟨_, mem_updateUser.mpr (.inr ⟨user, huser, hid, rfl⟩), huserId⟩
    · exact ⟨user, mem_updateUser.mpr (.inl ⟨huser, hid⟩), huserId⟩

theorem mem_deleteUser {id : ℤ} {user : User} :
    user ∈ (db.deleteUser id).1.users ↔ user ∈ db.users ∧ user.id ≠ id := by
  simp [Database.deleteUser]

theorem mem_urls_deleteUser {id : ℤ} {url : UrlRow} :
    url ∈ (db.deleteUser id).1.links.urls ↔ url ∈ db.links.urls ∧ url.userId ≠ id := by
  simp [Database.deleteUser]

theorem WellFormed.deleteUser (h : WellFormed db) (id : ℤ) : WellFormed (db.deleteUser id).1 := by
  refine ⟨?_, ?_, ?_, ?_, h.nonneg, h.limit, ?_⟩
  · exact h.usernames.sublist (List.filter_sublist.map _)
  · exact h.ids.sublist (List.filter_sublist.map _)
  · intro user huser
    exact h.pos user (mem_deleteUser.mp huser).1
  · intro user huser
    exact h.le user (mem_deleteUser.mp huser).1
  · intro url hurl
    obtain ⟨hurl, hnot⟩ := mem_urls_deleteUser.mp hurl
    obtain ⟨user, huser, hid⟩ := h.foreignKey url hurl
    refine ⟨user, mem_deleteUser.mpr ⟨huser, ?_⟩, hid⟩
    rwa [hid]

@[simp] theorem urlStatement_users (statement : UrlStatement) :
    (db.urlStatement statement).1.users = db.users := by
  cases statement with
  | add userId destinationUrl domainId =>
    simp only [Database.urlStatement]
    split_ifs <;> rfl
  | _ => rfl

@[simp] theorem urlStatement_userSequence (statement : UrlStatement) :
    (db.urlStatement statement).1.userSequence = db.userSequence := by
  cases statement with
  | add userId destinationUrl domainId =>
    simp only [Database.urlStatement]
    split_ifs <;> rfl
  | _ => rfl

/-- A statement on links gives no link to someone else, and none to someone unknown. -/
theorem urlStatement_userId {statement : UrlStatement} {url : UrlRow}
    (hurl : url ∈ (db.urlStatement statement).1.links.urls) :
    (∃ url' ∈ db.links.urls, url'.userId = url.userId) ∨
      ∃ user ∈ db.users, user.id = url.userId := by
  cases statement with
  | add userId destinationUrl domainId =>
    simp only [Database.urlStatement] at hurl
    split_ifs at hurl with huser
    · rcases List.mem_append.mp hurl with hurl | hurl
      · exact .inl ⟨url, hurl, rfl⟩
      · obtain rfl := List.mem_singleton.mp hurl
        exact .inr huser
    · exact .inl ⟨url, hurl, rfl⟩
  | update id userId domainId destinationUrl =>
    obtain ⟨url', hurl', rfl⟩ := List.mem_map.mp hurl
    refine .inl ⟨url', hurl', ?_⟩
    split_ifs <;> rfl
  | incrementVisit id =>
    obtain ⟨url', hurl', rfl⟩ := List.mem_map.mp hurl
    refine .inl ⟨url', hurl', ?_⟩
    split_ifs <;> rfl
  | delete id userId => exact .inl ⟨url, (List.mem_filter.mp hurl).1, rfl⟩

theorem WellFormed.urlStatement (h : WellFormed db) (statement : UrlStatement) :
    WellFormed (db.urlStatement statement).1 := by
  refine ⟨by simpa using h.usernames, by simpa using h.ids, by simpa using h.pos,
    by simpa using h.le, by simpa using h.nonneg, by simpa using h.limit, ?_⟩
  intro url hurl
  rw [urlStatement_users]
  rcases urlStatement_userId hurl with ⟨url', hurl', huserId⟩ | hknown
  · rw [← huserId]
    exact h.foreignKey url' hurl'
  · exact hknown

/-- The tables after a call. -/
theorem step_database (request : Request) :
    (step hasher shardId db request).1 =
      match request with
      | .create type username password salt _ =>
        if type ≠ .readWrite then db
        else (db.addUser username (hasher.hashPassword salt password)).1
      | .generateToken _ _ _ => db
      | .update userId password salt =>
        (db.updateUser userId (hasher.hashPassword salt password)).1
      | .delete userId => (db.deleteUser userId).1
      | .url statement => (db.urlStatement statement).1 := by
  cases request with
  | create type username password salt stamp =>
    simp only [step, create]
    split_ifs
    · rfl
    · split <;> rename_i heq <;> rw [heq]
  | url statement =>
    simp only [step]
    split <;> rename_i heq <;> rw [heq]
  | _ => rfl

theorem WellFormed.step (h : WellFormed db) (request : Request) :
    WellFormed (step hasher shardId db request).1 := by
  rw [step_database]
  cases request with
  | create type username password salt stamp =>
    show WellFormed (if type ≠ .readWrite then db else _)
    split_ifs
    · exact h
    · exact h.addUser username _
  | generateToken username password stamp => exact h
  | update userId password salt => exact h.updateUser userId _
  | delete userId => exact h.deleteUser userId
  | url statement => exact h.urlStatement statement

end

end Shortener.Accounts
