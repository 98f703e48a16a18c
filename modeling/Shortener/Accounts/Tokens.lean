import Shortener.Accounts.Directory
import Shortener.Urls.CacheKeys

/-!
# What tokens denote

All shards side by side, each with its own tables.

* `step_users`, `step_token`: what a call does to the users, and whom it gives a token for.
* `token_denotes`: a token denotes the user it was generated for, or nobody any more.
* `deleted_forever`: nothing is done for a user who was deleted.
-/

namespace Shortener.Accounts

open Shortener.Common Shortener.DotNet Shortener.Codec Shortener.Links Shortener.Shard

/-- All shards, each on its own tables. -/
def shards (hasher : PasswordHasher) :
    (ℤ → Database) → ℤ × Request → (ℤ → Database) × Reply :=
  beside (step hasher)

section

variable {hasher : PasswordHasher} {shardId : ℤ} {db : Database} {request : Request}

/-! ## A call -/

theorem step_userSequence :
    db.userSequence ≤ (step hasher shardId db request).1.userSequence := by
  rw [step_database]
  cases request with
  | create type username password salt stamp =>
    show db.userSequence ≤ Database.userSequence (if type ≠ .readWrite then db else _)
    split_ifs
    · exact le_rfl
    · rcases addUser_cases db username (hasher.hashPassword salt password) with ⟨-, heq⟩ |
        ⟨-, heq⟩ | ⟨-, heq⟩
      · rw [heq]
      · rw [heq]
        show db.userSequence ≤ db.userSequence + 1
        omega
      · rw [heq]
        show db.userSequence ≤ db.userSequence + 1
        omega
  | url statement => exact (urlStatement_userSequence statement).ge
  | _ => exact le_rfl

/-- A user after a call was there before under this name, or has a new id. -/
theorem step_users {user : User} (huser : user ∈ (step hasher shardId db request).1.users) :
    (∃ user' ∈ db.users, user'.id = user.id ∧ user'.username = user.username) ∨
      db.userSequence < user.id := by
  rw [step_database] at huser
  cases request with
  | create type username password salt stamp =>
    replace huser : user ∈ Database.users (if type ≠ .readWrite then db else _) := huser
    split_ifs at huser
    · exact .inl ⟨user, huser, rfl, rfl⟩
    · rcases addUser_cases db username (hasher.hashPassword salt password) with ⟨-, heq⟩ |
        ⟨-, heq⟩ | ⟨-, heq⟩
      · rw [heq] at huser
        exact .inl ⟨user, huser, rfl, rfl⟩
      · rw [heq] at huser
        exact .inl ⟨user, huser, rfl, rfl⟩
      · rw [heq] at huser
        rcases List.mem_append.mp huser with huser | huser
        · exact .inl ⟨user, huser, rfl, rfl⟩
        · obtain rfl := List.mem_singleton.mp huser
          right
          show db.userSequence < db.userSequence + 1
          omega
  | generateToken username password stamp => exact .inl ⟨user, huser, rfl, rfl⟩
  | update userId password salt =>
    rcases mem_updateUser.mp huser with ⟨huser, -⟩ | ⟨user', huser', -, rfl⟩
    · exact .inl ⟨user, huser, rfl, rfl⟩
    · exact .inl ⟨user', huser', rfl, rfl⟩
  | delete userId => exact .inl ⟨user, (mem_deleteUser.mp huser).1, rfl, rfl⟩
  | url statement => exact .inl ⟨user, by rwa [urlStatement_users] at huser, rfl, rfl⟩

/-- A token is generated for a user of the table. -/
theorem step_token (h : WellFormed db) {token : Token}
    (htoken : (step hasher shardId db request).2 = .token token) :
    ∃ user ∈ (step hasher shardId db request).1.users, ∃ stamp,
      token = generate ⟨shardId, user.id⟩ user.username stamp := by
  rw [step_database]
  cases request with
  | create type username password salt stamp =>
    simp only [step, create] at htoken
    split_ifs at htoken with htype
    show ∃ user ∈ Database.users (if type ≠ .readWrite then db else _), ∃ stamp, _
    rw [if_neg htype]
    rcases addUser_cases db username (hasher.hashPassword salt password) with ⟨-, heq⟩ |
      ⟨-, heq⟩ | ⟨-, heq⟩
    · simp [heq] at htoken
    · simp [heq] at htoken
    · simp only [heq, Reply.token.injEq] at htoken ⊢
      exact ⟨_, List.mem_append_right _ (List.mem_singleton_self _), stamp, htoken.symm⟩
  | generateToken username password stamp =>
    replace htoken : generateToken hasher shardId db username password stamp = .token token :=
      htoken
    unfold generateToken at htoken
    rcases h.getUser_cases username with ⟨user, huser, -, heq⟩ | ⟨-, heq⟩
    · simp only [heq] at htoken
      split_ifs at htoken
      exact ⟨user, huser, stamp, (Reply.token.inj htoken).symm⟩
    · simp [heq] at htoken
  | update userId password salt => cases htoken
  | delete userId => cases htoken
  | url statement =>
    simp only [step] at htoken
    split at htoken <;> cases htoken

/-! ## Tokens of a shard -/

/-- A token's id was given away, to nobody but the user whose name it has. -/
def Denotes (shardId : ℤ) (db : Database) (token : Token) : Prop :=
  ∃ id, 0 < id ∧ id ≤ db.userSequence ∧ token.sub = (⟨shardId, id⟩ : UserId).toString ∧
    ∀ user ∈ db.users, user.id = id → user.username = token.uniqueName

theorem Denotes.step {token : Token} (h : Denotes shardId db token) :
    Denotes shardId (step hasher shardId db request).1 token := by
  obtain ⟨id, hpos, hle, hsub, hname⟩ := h
  refine ⟨id, hpos, hle.trans step_userSequence, hsub, ?_⟩
  intro user huser hid
  rcases step_users huser with ⟨user', huser', hid', hname'⟩ | hnew
  · rw [← hname']
    exact hname user' huser' (hid'.trans hid)
  · omega

/-- The tokens of a shard, after it has answered so. -/
structure Issued (shardId : ℤ) (l : List (Request × Reply)) (db : Database) : Prop where
  denotes : ∀ request token, (request, .token token) ∈ l → Denotes shardId db token
  same : ∀ request token request' token', (request, .token token) ∈ l →
    (request', .token token') ∈ l → token.sub = token'.sub → token.uniqueName = token'.uniqueName

/-- A token that is generated now has the name of one that denotes the user already. -/
theorem uniqueName_eq (h : WellFormed db) {token token' : Token}
    (htoken : (step hasher shardId db request).2 = .token token) (h' : Denotes shardId db token')
    (hsub : token.sub = token'.sub) : token.uniqueName = token'.uniqueName := by
  obtain ⟨user, huser, stamp, rfl⟩ := step_token h htoken
  have hdenotes : Denotes shardId (step hasher shardId db request).1 token' := h'.step
  obtain ⟨id, -, -, hsub', hname⟩ := hdenotes
  have heq := Urls.UserId.toString_injective (hsub.trans hsub')
  exact hname user huser (UserId.mk.inj heq).2

theorem Issued.step {l : List (Request × Reply)} (h : WellFormed db) (hi : Issued shardId l db) :
    Issued shardId (l ++ [(request, (step hasher shardId db request).2)])
      (step hasher shardId db request).1 := by
  have hnew : ∀ {request' token}, (request', Reply.token token) ∈
      l ++ [(request, (Accounts.step hasher shardId db request).2)] →
      (request', .token token) ∈ l ∨
        (Accounts.step hasher shardId db request).2 = .token token := by
    intro request' token hmem
    rcases List.mem_append.mp hmem with hmem | hmem
    · exact .inl hmem
    · exact .inr (Prod.mk.inj (List.mem_singleton.mp hmem)).2.symm
  constructor
  · intro request' token hmem
    rcases hnew hmem with hmem | htoken
    · exact (hi.denotes request' token hmem).step
    · obtain ⟨user, huser, stamp, rfl⟩ := step_token h htoken
      have hwell : WellFormed (Accounts.step hasher shardId db request).1 := h.step request
      refine ⟨user.id, hwell.pos user huser, hwell.le user huser, rfl, ?_⟩
      intro user' huser' hid
      rw [hwell.eq_of_id huser' huser hid]
      rfl
  · intro request₁ token₁ request₂ token₂ hmem₁ hmem₂ hsub
    rcases hnew hmem₁ with hmem₁ | htoken₁
    · rcases hnew hmem₂ with hmem₂ | htoken₂
      · exact hi.same request₁ token₁ request₂ token₂ hmem₁ hmem₂ hsub
      · exact (uniqueName_eq h htoken₂ (hi.denotes request₁ token₁ hmem₁) hsub.symm).symm
    · rcases hnew hmem₂ with hmem₂ | htoken₂
      · exact uniqueName_eq h htoken₁ (hi.denotes request₂ token₂ hmem₂) hsub
      · rw [Reply.token.inj (htoken₁.symm.trans htoken₂)]

/-- A token of a shard names the shard. -/
theorem sub_of_mem_trace (h : WellFormed db) {requests : List Request} {token : Token}
    (hmem : (request, .token token) ∈ trace (step hasher shardId) requests db) :
    ∃ id, token.sub = (⟨shardId, id⟩ : UserId).toString := by
  induction requests generalizing db with
  | nil => cases hmem
  | cons request' requests ih =>
    rcases List.mem_cons.mp hmem with heq | hmem
    · obtain ⟨user, -, stamp, rfl⟩ := step_token h (Prod.mk.inj heq).2.symm
      exact ⟨user.id, rfl⟩
    · exact ih (h.step request') hmem

theorem wellFormed_final (h : WellFormed db) (requests : List Request) :
    WellFormed (final (step hasher shardId) requests db) := by
  induction requests generalizing db with
  | nil => exact h
  | cons request requests ih => exact ih (h.step request)

theorem issued_trace (requests : List Request) :
    Issued shardId (trace (step hasher shardId) requests .init)
      (final (step hasher shardId) requests .init) := by
  induction requests using List.reverseRecOn with
  | nil => exact ⟨by simp [trace], by simp [trace]⟩
  | append_singleton requests request ih =>
    rw [trace_append, final_append]
    exact ih.step (wellFormed_final wellFormed_init requests)

/-! ## All shards -/

/-- What shard `r` answers is what it answers alone. -/
theorem mem_trace_shards {requests : List (ℤ × Request)} {r : ℤ} {ss : ℤ → Database}
    {reply : Reply} (h : ((r, request), reply) ∈ trace (shards hasher) requests ss) :
    (request, reply) ∈ trace (step hasher r) (requestsOf r requests) (ss r) := by
  rw [← answersOf_trace]
  exact mem_answersOf.mpr h

theorem wellFormed_shards (requests : List (ℤ × Request)) (r : ℤ) :
    WellFormed (final (shards hasher) requests (fun _ => .init) r) := by
  unfold shards
  rw [final_beside]
  exact wellFormed_final wellFormed_init _

/-- **A token denotes one user.** Its `sub` is read as the shard that generated it and an id.
    Whoever has this id there at the end of the run, if anyone, has the name in the token; and
    a token with this `sub` is of the same shard and has the same name. -/
theorem token_denotes {requests : List (ℤ × Request)} {r : ℤ} (hr : IsInt64 r) {token : Token}
    (htoken : ((r, request), .token token) ∈ trace (shards hasher) requests fun _ => .init) :
    (∃ id, UserId.tryParse token.sub = some ⟨r, id⟩ ∧
      ∀ user ∈ (final (shards hasher) requests (fun _ => .init) r).users, user.id = id →
        user.username = token.uniqueName) ∧
    ∀ r' request' token', token'.sub = token.sub →
      ((r', request'), .token token') ∈ trace (shards hasher) requests (fun _ => .init) →
      r' = r ∧ token'.uniqueName = token.uniqueName := by
  have hissued : Issued r _ (final (step hasher r) (requestsOf r requests) .init) := issued_trace _
  have hwell : WellFormed (final (step hasher r) (requestsOf r requests) .init) :=
    wellFormed_final wellFormed_init _
  have hmem := mem_trace_shards htoken
  obtain ⟨id, hpos, hle, hsub, hname⟩ := hissued.denotes request token hmem
  constructor
  · refine ⟨id, ?_, ?_⟩
    · have hlimit := hwell.limit
      have hvalid : (⟨r, id⟩ : UserId).IsValid := by
        refine ⟨hr, ?_⟩
        show -2 ^ 31 ≤ id ∧ id < 2 ^ 31
        unfold maxInteger at hlimit
        omega
      rw [hsub]
      exact UserId.tryParse_toString hvalid
    · unfold shards
      rw [final_beside]
      exact hname
  · intro r' request' token' hsub' htoken'
    have hmem' := mem_trace_shards htoken'
    obtain ⟨id', -, -, hsub'', -⟩ :=
      (issued_trace (requestsOf r' requests)).denotes request' token' hmem'
    have heq := Urls.UserId.toString_injective ((hsub''.symm.trans hsub').trans hsub)
    obtain rfl := (UserId.mk.inj heq).1
    exact ⟨rfl, hissued.same _ _ _ _ hmem' hmem hsub'⟩

/-- Two shards, each with a user of the same name. -/
def twoShards : List (ℤ × Request) :=
  [(3, .create .readWrite "ann" "one" 1 ⟨"a", 10⟩), (5, .create .readWrite "ann" "two" 2 ⟨"b", 20⟩),
    (3, .generateToken "ann" "one" ⟨"c", 30⟩), (3, .delete 1),
    (3, .create .readWrite "ann" "three" 3 ⟨"d", 40⟩)]

theorem token_denotes_twoShards :
    ((trace (shards saltedHasher) twoShards fun _ => .init).map Prod.snd =
      [.token ⟨"3:1", "a", "ann", 10⟩, .token ⟨"5:1", "b", "ann", 20⟩,
        .token ⟨"3:1", "c", "ann", 30⟩, .success true, .token ⟨"3:2", "d", "ann", 40⟩]) ∧
    (∃ id, UserId.tryParse "3:1" = some ⟨3, id⟩ ∧
      ∀ user ∈ (final (shards saltedHasher) twoShards (fun _ => .init) 3).users, user.id = id →
        user.username = "ann") ∧
    ∀ r' request' token', token'.sub = "3:1" →
      ((r', request'), .token token') ∈ trace (shards saltedHasher) twoShards (fun _ => .init) →
      r' = 3 ∧ token'.uniqueName = "ann" := by
  have htoken : (((3 : ℤ), Request.generateToken "ann" "one" ⟨"c", 30⟩),
      Reply.token ⟨"3:1", "c", "ann", 30⟩) ∈
        trace (shards saltedHasher) twoShards fun _ => .init := by decide +kernel
  exact ⟨by decide +kernel, (token_denotes (by decide) htoken :)⟩

/-! ## Deleted users -/

/-- The id was given away, and nobody has it. -/
structure Retired (id : ℤ) (db : Database) : Prop where
  le : id ≤ db.userSequence
  nobody : ∀ user ∈ db.users, user.id ≠ id

/-- What a deleted user gets. -/
structure Refused (shardId id : ℤ) (request : Request) (reply : Reply) : Prop where
  update : ∀ password salt, request = .update id password salt → reply = .success false
  delete : request = .delete id → reply = .success false
  add : ∀ destinationUrl domainId, request = .url (.add id destinationUrl domainId) →
    reply = .postgres .foreignKeyViolation
  token : ∀ token, reply = .token token → token.sub ≠ (⟨shardId, id⟩ : UserId).toString

theorem Retired.step {id : ℤ} (h : Retired id db) :
    Retired id (step hasher shardId db request).1 := by
  refine ⟨h.le.trans step_userSequence, ?_⟩
  intro user huser
  rcases step_users huser with ⟨user', huser', hid, -⟩ | hnew
  · rw [← hid]
    exact h.nobody user' huser'
  · have hle := h.le
    omega

theorem Retired.refused {id : ℤ} (hwell : WellFormed db) (h : Retired id db) :
    Refused shardId id request (Accounts.step hasher shardId db request).2 := by
  have hany : (db.users.any fun user => user.id = id) = false := by simpa using h.nobody
  refine ⟨?_, ?_, ?_, ?_⟩
  · rintro password salt rfl
    show Reply.success (db.users.any fun user => user.id = id) = _
    rw [hany]
  · rintro rfl
    show Reply.success (db.users.any fun user => user.id = id) = _
    rw [hany]
  · rintro destinationUrl domainId rfl
    have hnot : ¬ ∃ user ∈ db.users, user.id = id := by simpa using h.nobody
    simp only [Accounts.step, Database.urlStatement, if_neg hnot]
  · intro token htoken hsub
    obtain ⟨user, huser, stamp, rfl⟩ := step_token hwell htoken
    have heq := Urls.UserId.toString_injective hsub
    exact h.step.nobody user huser (UserId.mk.inj heq).2

theorem Retired.trace {id : ℤ} (hwell : WellFormed db) (h : Retired id db)
    (requests : List Request) :
    (∀ x ∈ trace (Accounts.step hasher shardId) requests db, Refused shardId id x.1 x.2) ∧
      Retired id (final (Accounts.step hasher shardId) requests db) := by
  induction requests generalizing db with
  | nil => exact ⟨by simp [Common.trace], h⟩
  | cons request requests ih =>
    have hnext : Retired id (Accounts.step hasher shardId db request).1 := h.step
    obtain ⟨hrefused, hretired⟩ := ih (hwell.step request) hnext
    refine ⟨?_, hretired⟩
    intro x hx
    rcases List.mem_cons.mp hx with rfl | hx
    · exact h.refused hwell
    · exact hrefused x hx

theorem retired_of_delete {id : ℤ} (hwell : WellFormed db)
    (h : (Accounts.step hasher shardId db (.delete id)).2 = .success true) :
    Retired id (Accounts.step hasher shardId db (.delete id)).1 := by
  have hany : (db.users.any fun user => user.id = id) = true := Reply.success.inj h
  simp only [List.any_eq_true, decide_eq_true_eq] at hany
  obtain ⟨user, huser, rfl⟩ := hany
  refine ⟨hwell.le user huser, ?_⟩
  intro user' huser'
  exact (mem_deleteUser.mp huser').2

/-- **Deleted is deleted.** Once a shard has deleted a user, it has no user with this id and no
    link of it, and answers whatever is still asked with the user's token in vain; no shard
    generates a token for this id any more. -/
theorem deleted_forever {before later : List (ℤ × Request)} {r id : ℤ}
    (hdelete : (shards hasher (final (shards hasher) before fun _ => .init) (r, .delete id)).2 =
      .success true) :
    let s := final (shards hasher) (before ++ [(r, .delete id)]) fun _ => .init
    (∀ request reply, ((r, request), reply) ∈ trace (shards hasher) later s →
      Refused r id request reply) ∧
    (∀ r' request token, ((r', request), .token token) ∈ trace (shards hasher) later s →
      token.sub ≠ (⟨r, id⟩ : UserId).toString) ∧
    (∀ user ∈ (final (shards hasher) later s r).users, user.id ≠ id) ∧
    ∀ url ∈ (final (shards hasher) later s r).links.urls, url.userId ≠ id := by
  intro s
  have hs : ∀ r', WellFormed (s r') := wellFormed_shards _
  have hretired : Retired id (s r) := by
    show Retired id (final (shards hasher) (before ++ [(r, .delete id)]) (fun _ => .init) r)
    rw [final_append]
    show Retired id ((beside (Accounts.step hasher) _ (r, .delete id)).1 r)
    rw [beside_self]
    exact retired_of_delete (wellFormed_shards before r) hdelete
  obtain ⟨hrefused, hend⟩ :
      (∀ x ∈ Common.trace (Accounts.step hasher r) (requestsOf r later) (s r),
        Refused r id x.1 x.2) ∧ Retired id (final (Accounts.step hasher r) (requestsOf r later) (s r)) :=
    hretired.trace (hs r) _
  have hanswers : ∀ request reply, ((r, request), reply) ∈ Common.trace (shards hasher) later s →
      Refused r id request reply := fun request reply hmem => hrefused _ (mem_trace_shards hmem)
  have hfinal : final (shards hasher) later s r =
      final (Accounts.step hasher r) (requestsOf r later) (s r) := final_beside ..
  refine ⟨hanswers, ?_, ?_, ?_⟩
  · intro r' request token hmem hsub
    by_cases hr : r' = r
    · subst hr
      exact (hanswers request _ hmem).token token rfl hsub
    · obtain ⟨id', hsub'⟩ := sub_of_mem_trace (hs r') (mem_trace_shards hmem)
      exact hr (UserId.mk.inj (Urls.UserId.toString_injective (hsub'.symm.trans hsub))).1
  · rw [hfinal]
    exact hend.nobody
  · rw [hfinal]
    intro url hurl huser
    have hwell : WellFormed (final (Accounts.step hasher r) (requestsOf r later) (s r)) :=
      wellFormed_final (hs r) _
    obtain ⟨user, huserMem, hid⟩ := hwell.foreignKey url hurl
    exact hend.nobody user huserMem (hid.trans huser)

theorem deleted_forever_twoShards :
    let s := final (shards saltedHasher) (twoShards.take 3 ++ [(3, .delete 1)]) fun _ => .init
    let later : List (ℤ × Request) :=
      [(3, .create .readWrite "ann" "three" 3 ⟨"d", 40⟩), (3, .delete 1)]
    (∀ request reply, ((3, request), reply) ∈ trace (shards saltedHasher) later s →
      Refused 3 1 request reply) ∧
    (∀ r' request token, ((r', request), .token token) ∈ trace (shards saltedHasher) later s →
      token.sub ≠ (⟨3, 1⟩ : UserId).toString) ∧
    (∀ user ∈ (final (shards saltedHasher) later s 3).users, user.id ≠ 1) ∧
    ∀ url ∈ (final (shards saltedHasher) later s 3).links.urls, url.userId ≠ 1 :=
  deleted_forever (by decide +kernel)

end

end Shortener.Accounts
