import Shortener.Links.Banned

/-!
# Spellings of a banned domain

The admin bans a name as it was typed (`DomainController.cs`, `DomainValidator.cs` and
`BannedDomainRepository.cs` of `Shortener.Admin`), and the backends ask for the host of a URI,
which is in lower case. Neither the table nor the key of the cache ignores case, as
`DomainRepository` does with the domains of a shard.

* `banCovers_iff`: a ban covers a host exactly if the host is spelled like the ban, or was
  banned before.
* `spelling_iff`: so a ban has to be typed in lower case, and `Unban` exactly like `Ban`.
-/

namespace Shortener.Links.Banned

open Shortener.Common Shortener.DotNet Shortener.Codec

/-- `DomainValidator`; `isHostName` says that `Uri.CheckHostName` is not `Unknown`. -/
def domainValidator (isHostName : String → Bool) (domain : String) : Bool :=
  notEmpty domain && isHostName domain

/-- The names are equal but for the case. -/
def SameName (env : Globalization) (name name' : String) : Prop :=
  env.toLowerInvariant name = env.toLowerInvariant name'

/-- What `System.Uri` promises: a host is in lower case. -/
def LowerHosts (env : Globalization) (tryCreate : String → Option Uri) : Prop :=
  ∀ text uri, tryCreate text = some uri → env.toLowerInvariant uri.host = uri.host

/-- The step is no `Unban` of `d` in any spelling. -/
def NoUnban (env : Globalization) (d : String) (_ : State) (e : Event) : Prop :=
  ∀ name, e = .admin (.unban name) → ¬ SameName env name d

/-- After `Ban` of `d`, as long as `d` is not unbanned, an execution of `IsBanned` for `host` that
    starts does not return false, and no link to `host` is stored by a call that arrives. -/
def BanCovers (env : Globalization) (tryCreate : String → Option Uri) (s : State)
    (d host : String) : Prop :=
  ∀ s₁ es t, step env tryCreate s (.admin (.ban d)) = some s₁ →
    Run (step env tryCreate) (NoUnban env d) s₁ es t →
    (∀ n check banned, s₁.admin.checks.length ≤ n → t.admin.checks[n]? = some check →
      check.domain = host → check.outcome = .returned banned → banned = true) ∧
    ∀ r i call n uri u, (t.shards r).calls[i]? = some call → call.origin = some n →
      s₁.admin.checks.length ≤ n → call.request.uri tryCreate = some uri → uri.host = host →
      step env tryCreate t (.shard r (.execute i)) ≠ some u

/-- After `Ban` of `d` and then `Unban` of `name`, `d` is not banned. -/
def UnbanRemoves (env : Globalization) (tryCreate : String → Option Uri) (s : State)
    (d name : String) : Prop :=
  ∀ s₁ es t u, step env tryCreate s (.admin (.ban d)) = some s₁ →
    Run (step env tryCreate) (NoUnban env d) s₁ es t →
    step env tryCreate t (.admin (.unban name)) = some u → d ∉ u.admin.bannedDomains

variable {env : Globalization} {tryCreate : String → Option Uri} {s t : State} {d host : String}

/-- A step of the admin service. -/
theorem step_admin_iff {e : Admin.Event} :
    step env tryCreate s (.admin e) = some t ↔
      ∃ admin, Admin.step s.admin e = some admin ∧ { s with admin := admin } = t :=
  Option.map_eq_some_iff

/-! ## A ban that covers the host -/

theorem banCovers_of_mem (hs : Inv tryCreate s) (hsame : SameName env host d)
    (h : host = d ∨ host ∈ s.admin.bannedDomains) : BanCovers env tryCreate s d host := by
  intro s₁ es t hban hrun
  -- the host is banned when the run starts, and in all of it
  have hbanned : host ∈ s₁.admin.bannedDomains := by
    obtain ⟨admin, hadmin, rfl⟩ := step_admin_iff.mp hban
    rcases h with rfl | h
    · exact Admin.mem_bannedDomains_ban hadmin
    · exact Admin.step_bannedDomains hadmin h (by simp)
  have hsince : Admin.BannedSince host s₁.admin.checks.length t.admin := by
    refine bannedSince_run (hrun.mono ?_) (.start hbanned)
    intro s e hno he
    exact hno host he hsame
  have hinv : Inv tryCreate t :=
    hrun.invariant (hs.step hban) fun _ _ _ hi _ hstep => hi.step hstep
  constructor
  · intro n check banned hn hcheck hdomain houtcome
    have htruthful := hsince.truthful n check hn hcheck hdomain
    cases banned with
    | true => rfl
    | false => exact absurd houtcome htruthful.returned
  · intro r i call n uri u hcall horigin hn huri hhost hexecute
    exact host_ne_of_execute hinv hsince hn hcall horigin hexecute huri hhost

/-! ## A ban that does not -/

/-- Steps of the admin service alone. -/
theorem run_admin {a b : Admin.State} {es : List Admin.Event}
    (h : Run Admin.step (fun _ e => ∀ name, e ≠ .unban name) a es b) (shards) :
    Run (step env tryCreate) (NoUnban env d) ⟨a, shards⟩ (es.map .admin) ⟨b, shards⟩ := by
  induction h with
  | nil => exact .nil
  | snoc _ hno hstep ih =>
    rw [List.map_append]
    refine ih.snoc ?_ (step_admin_iff.mpr ⟨_, hstep, rfl⟩)
    intro name he
    exact absurd (Event.admin.inj he) (hno name)

/-- What a step of the execution `n` leaves alone. -/
theorem admin_check_step {a : Admin.State} {n : ℕ} {check : Admin.Check} (e : Admin.CheckEvent)
    (check' : Admin.Check) (hn : a.checks[n]? = some check) (h : check.step a e = some check') :
    ∃ b, Admin.step a (.check n e) = some b ∧ b.checks[n]? = some check' ∧
      b.bannedDomains = a.bannedDomains := by
  have hlt : n < a.checks.length := (List.getElem?_eq_some_iff.mp hn).1
  refine ⟨{ a with checks := a.checks.set n check', workItems := a.workItems ++ check.queues e },
    ?_, List.getElem?_set_self hlt, rfl⟩
  simp [Admin.step, hn, h]

/-- The cache entry expires, and the admin service does not find the host in its table. -/
theorem isBanned_returns_false {a : Admin.State} (h : host ∉ a.bannedDomains) :
    ∃ es b, Run Admin.step (fun _ e => ∀ name, e ≠ .unban name) a es b ∧
      b.checks[a.checks.length]? = some ⟨host, [.queued false], .returned false⟩ := by
  -- the entry expires
  let a₀ : Admin.State :=
    { a with cache := Function.update a.cache (Admin.getBannedDomainKey host) none }
  let a₁ : Admin.State := { a₀ with checks := a.checks ++ [⟨host, [], .running⟩] }
  have hcheck₁ : a₁.checks[a.checks.length]? = some ⟨host, [], .running⟩ :=
    List.getElem?_concat_length
  have hcache : a₁.cache (Admin.getBannedDomainKey host) ≠ some true := by simp [a₁, a₀]
  -- the four steps of the execution
  obtain ⟨a₂, hstep₂, hcheck₂, hbanned₂⟩ := admin_check_step .getOrNullable
    ⟨host, [.sent], .running⟩ hcheck₁ (by simp [Admin.Check.step, hcache])
  have hget : host ∉ a₂.bannedDomains := by rwa [hbanned₂]
  obtain ⟨a₃, hstep₃, hcheck₃, -⟩ := admin_check_step (.get 0)
    ⟨host, [.read false], .running⟩ hcheck₂ (by simp [Admin.Check.step, hget])
  obtain ⟨a₄, hstep₄, hcheck₄, -⟩ := admin_check_step
    (.updateDomainInBackground 0) ⟨host, [.queued false], .running⟩ hcheck₃ (by simp [Admin.Check.step])
  obtain ⟨a₅, hstep₅, hcheck₅, -⟩ := admin_check_step .reply
    ⟨host, [.queued false], .returned false⟩ hcheck₄ (by simp [Admin.Check.step])
  have hstep₀ : Admin.step a (.expire (Admin.getBannedDomainKey host)) = some a₀ := rfl
  have hstep₁ : Admin.step a₀ (.isBanned host) = some a₁ := rfl
  have hrun₁ : Run Admin.step (fun _ e => ∀ name, e ≠ .unban name) a _ a₁ :=
    (Run.single (by simp) hstep₀).snoc (by simp) hstep₁
  have hrun₅ := (((hrun₁.snoc (by simp) hstep₂).snoc (by simp) hstep₃).snoc (by simp) hstep₄).snoc
    (by simp) hstep₅
  exact ⟨_, a₅, hrun₅, hcheck₅⟩

theorem mem_of_banCovers (h : BanCovers env tryCreate s d host) :
    host = d ∨ host ∈ s.admin.bannedDomains := by
  by_contra hnot
  push Not at hnot
  obtain ⟨s₁, hban⟩ : ∃ s₁, step env tryCreate s (.admin (.ban d)) = some s₁ := ⟨_, rfl⟩
  have hhost : host ∉ s₁.admin.bannedDomains := by
    obtain ⟨admin, hadmin, rfl⟩ := step_admin_iff.mp hban
    obtain rfl := Option.some.inj hadmin
    show host ∉ if d ∈ s.admin.bannedDomains then _ else _
    split_ifs
    · exact hnot.2
    · simpa using ⟨hnot.2, hnot.1⟩
  obtain ⟨es, b, hrun, hcheck⟩ := isBanned_returns_false hhost
  have hfalse := (h s₁ _ _ hban (run_admin hrun s₁.shards)).1 _ _ false le_rfl hcheck rfl rfl
  exact absurd hfalse Bool.false_ne_true

theorem banCovers_iff (hs : Inv tryCreate s) (hsame : SameName env host d) :
    BanCovers env tryCreate s d host ↔ host = d ∨ host ∈ s.admin.bannedDomains :=
  ⟨mem_of_banCovers, banCovers_of_mem hs hsame⟩

/-! ## The `Unban` of a ban -/

/-- `Unban` deletes one name. -/
theorem mem_bannedDomains_unban {name : String}
    (h : step env tryCreate s (.admin (.unban name)) = some t) :
    d ∈ t.admin.bannedDomains ↔ d ∈ s.admin.bannedDomains ∧ d ≠ name := by
  obtain ⟨admin, hadmin, rfl⟩ := step_admin_iff.mp h
  obtain rfl := Option.some.inj hadmin
  show d ∈ s.admin.bannedDomains.filter _ ↔ _
  rw [List.mem_filter, decide_eq_true_eq]

theorem unbanRemoves_iff {name : String} : UnbanRemoves env tryCreate s d name ↔ name = d := by
  constructor
  · intro h
    by_contra hne
    obtain ⟨s₁, hban⟩ : ∃ s₁, step env tryCreate s (.admin (.ban d)) = some s₁ := ⟨_, rfl⟩
    obtain ⟨u, hunban⟩ : ∃ u, step env tryCreate s₁ (.admin (.unban name)) = some u := ⟨_, rfl⟩
    have hbanned : d ∈ s₁.admin.bannedDomains := by
      obtain ⟨admin, hadmin, rfl⟩ := step_admin_iff.mp hban
      exact Admin.mem_bannedDomains_ban hadmin
    exact h s₁ [] s₁ u hban .nil hunban ((mem_bannedDomains_unban hunban).mpr ⟨hbanned, Ne.symm hne⟩)
  · rintro rfl s₁ es t u - - hunban hmem
    exact ((mem_bannedDomains_unban hunban).mp hmem).2 rfl

/-- **A ban has to be spelled like the host.** In every reachable state, for every domain `d`,
    every destination whose host is `d` but for the case, and every `name`: the ban covers the
    host exactly if `d` is in lower case or the host itself was banned before, and `Unban` of
    `name` removes the ban exactly if `name` is `d`. -/
theorem spelling_iff (hlower : LowerHosts env tryCreate) {es : List Event}
    (hreached : Run (step env tryCreate) always .init es s) {text name : String} {uri : Uri}
    (huri : tryCreate text = some uri) (hsame : SameName env uri.host d) :
    (BanCovers env tryCreate s d uri.host ↔
      env.toLowerInvariant d = d ∨ uri.host ∈ s.admin.bannedDomains) ∧
    (UnbanRemoves env tryCreate s d name ↔ name = d) := by
  refine ⟨?_, unbanRemoves_iff⟩
  have hhost : env.toLowerInvariant d = uri.host := hsame.symm.trans (hlower text uri huri)
  rw [banCovers_iff (inv_run hreached) hsame, hhost]

/-! ## A ban typed with capitals -/

theorem toLower_example :
    Globalization.invariantMode.toLowerInvariant "example.com" = "example.com" ∧
      Globalization.invariantMode.toLowerInvariant "Example.COM" = "example.com" := by
  constructor
  · decide +kernel
  · decide +kernel

theorem lowerHosts_exampleUri : LowerHosts .invariantMode exampleUri := by
  intro text uri h
  unfold exampleUri at h
  split_ifs at h
  obtain rfl := Option.some.inj h
  exact toLower_example.1

theorem sameName_example : SameName .invariantMode "example.com" "Example.COM" := by
  exact toLower_example.1.trans toLower_example.2.symm

/-- A ban that is typed in lower case covers the host, and the same name lifts it. -/
theorem spelling_iff_example :
    BanCovers .invariantMode exampleUri .init "example.com" "example.com" ∧
      UnbanRemoves .invariantMode exampleUri .init "example.com" "example.com" ∧
      ¬ UnbanRemoves .invariantMode exampleUri .init "Example.COM" "example.com" := by
  have huri : exampleUri "https://example.com/" = some ⟨"https", "example.com", "/"⟩ := if_pos rfl
  have hlower : (BanCovers .invariantMode exampleUri .init "example.com" "example.com" ↔ _) ∧
      (UnbanRemoves .invariantMode exampleUri .init "example.com" "example.com" ↔ _) :=
    spelling_iff lowerHosts_exampleUri .nil huri rfl
  have hcapitals : _ ∧
      (UnbanRemoves .invariantMode exampleUri .init "Example.COM" "example.com" ↔ _) :=
    spelling_iff lowerHosts_exampleUri .nil huri sameName_example
  refine ⟨hlower.1.mpr (.inl toLower_example.1), hlower.2.mpr rfl, fun h => ?_⟩
  exact absurd (hcapitals.2.mp h) (by decide)

/-- The validator lets `Example.COM` pass; its ban does not cover the host `example.com`, and
    `Unban` of `example.com` leaves it in the table. -/
theorem capitals_not_covered :
    domainValidator (fun domain => domain = "Example.COM") "Example.COM" = true ∧
      exampleUri "https://example.com/" = some ⟨"https", "example.com", "/"⟩ ∧
      SameName .invariantMode "example.com" "Example.COM" ∧
      ¬ BanCovers .invariantMode exampleUri .init "Example.COM" "example.com" ∧
      ¬ UnbanRemoves .invariantMode exampleUri .init "Example.COM" "example.com" := by
  refine ⟨by decide, if_pos rfl, sameName_example, ?_, ?_⟩
  · intro h
    rcases mem_of_banCovers h with h | h
    · exact absurd h (by decide)
    · exact absurd h List.not_mem_nil
  · rw [unbanRemoves_iff]
    decide

end Shortener.Links.Banned
