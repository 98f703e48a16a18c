import Shortener.Common.Provenance
import Shortener.Links.Origin
import Shortener.Redirects.System

/-!
# What visitors are told

The destination that a visitor is told has come from a row of the link, through the reply of
the shard or through the cache, and into the row from the owner of the link.

* `held_step`: work items, calls, entries and visitors copy destinations, and only the
  statement of `Redirect` takes one from a row.
* `told_from_owner`: whoever is told a destination, the link had it, from its owner.
* `told_recently`: and had it lately, if work items do not wait for too long.
-/

namespace Shortener.Redirects

open Shortener.Common Shortener.DotNet Shortener.Codec Shortener.Links Shortener.Stats

variable {env : Globalization} {tryCreate : String → Option Uri} {s t : State} {e : Event}
  {es : List Event} {delay : ℕ}

/-! ## Copies of a destination -/

/-- Link `id` had the destination at `since` or later. -/
structure Copy where
  id : ShortId
  destinationUrl : String
  since : ℕ

/-- A visitor is told the destination, or is about to be. -/
def Visitor.Told (visitor : Visitor) (destinationUrl : String) : Prop :=
  visitor.stage = .found destinationUrl ∨ visitor.stage = .answered destinationUrl

/-- Where a state holds a copy, if a row is read at most `delay` before its entry is written. -/
inductive Held (delay : ℕ) (s : State) (copy : Copy) : Prop
  | visitor {visitor : Visitor} : visitor ∈ s.visitors → visitor.id = copy.id →
      visitor.Told copy.destinationUrl →
      copy.since ≤ visitor.request.timestamp - (delay + mappingDuration) → Held delay s copy
  | call {call : Call} : call ∈ s.calls → parseId call.request.shortId = .ret copy.id →
      call.destinationUrl = copy.destinationUrl → copy.since ≤ call.request.timestamp →
      Held delay s copy
  | pending {call : Call} {key : String} {readAt : ℕ} : call ∈ s.calls →
      .setString key copy.destinationUrl readAt ∈ call.tasks →
      Task.IsFor copy.id (.setString key copy.destinationUrl readAt) → copy.since ≤ readAt →
      Held delay s copy
  | task {key : String} {readAt : ℕ} : .setString key copy.destinationUrl readAt ∈ s.tasks →
      Task.IsFor copy.id (.setString key copy.destinationUrl readAt) → copy.since ≤ readAt →
      Held delay s copy
  | entry {key : String} {deadline : ℕ} : s.entries key = some ⟨copy.destinationUrl, deadline⟩ →
      getUrlMappingKey copy.id = .ret key → Parsed copy.id →
      copy.since ≤ deadline - (delay + mappingDuration) → Held delay s copy

/-- The row of the link has the destination. -/
def Stored (s : State) (id : ShortId) (destinationUrl : String) : Prop :=
  ∃ url ∈ (s.links.shards id.range).database.urls,
    url.id = id.index ∧ url.destinationUrl = destinationUrl

/-- The row, read in time. -/
def Read (s : State) (copy : Copy) : Prop :=
  Stored s copy.id copy.destinationUrl ∧ copy.since ≤ s.now

/-- A work item that writes an entry runs at most `delay` after its row was read. -/
def Prompt (delay : ℕ) (s : State) (e : Event) : Prop :=
  ∀ k key data readAt, e = .run k → s.tasks[k]? = some (.setString key data readAt) →
    s.now ≤ readAt + delay

variable {copy : Copy}

/-! ## Steps -/

theorem held_entry (hprompt : copy.since = 0 ∨ Prompt delay s e)
    (hs : Inv s) (h : Steps env tryCreate s e t) {key : String} {deadline : ℕ}
    (hentry : t.entries key = some ⟨copy.destinationUrl, deadline⟩)
    (hkey : getUrlMappingKey copy.id = .ret key) (hparsed : Parsed copy.id)
    (hsince : copy.since ≤ deadline - (delay + mappingDuration)) : Held delay s copy := by
  cases h with
  | @setString k key' data readAt hk =>
    by_cases hsame : key = key'
    · subst hsame
      simp only [Function.update_self, Option.some.injEq, Entry.mk.injEq] at hentry
      obtain ⟨rfl, rfl⟩ := hentry
      obtain ⟨id, hid⟩ := hs.task hk
      obtain rfl : copy.id = id := getUrlMappingKey_inj hparsed hid.2 hkey hid.1
      refine .task (List.mem_of_getElem? hk) hid ?_
      rcases hprompt with hzero | hprompt
      · omega
      · have := hprompt k key copy.destinationUrl readAt rfl hk
        omega
    · simp only [Function.update_of_ne hsame] at hentry
      exact .entry hentry hkey hparsed hsince
  | remove key' =>
    by_cases hsame : key = key'
    · subst hsame
      simp at hentry
    · simp only [Function.update_of_ne hsame] at hentry
      exact .entry hentry hkey hparsed hsince
  | _ => exact .entry hentry hkey hparsed hsince

theorem held_task (h : Steps env tryCreate s e t) {key : String} {readAt : ℕ}
    (htask : .setString key copy.destinationUrl readAt ∈ t.tasks)
    (hfor : Task.IsFor copy.id (.setString key copy.destinationUrl readAt))
    (hsince : copy.since ≤ readAt) : Held delay s copy := by
  cases h with
  | @notify =>
    simp only [List.mem_append, List.mem_singleton, reduceCtorEq, or_false] at htask
    exact .task htask hfor hsince
  | @enqueue i call task tasks hi htasks =>
    rcases List.mem_append.mp htask with htask | htask
    · exact .task htask hfor hsince
    · obtain rfl := List.mem_singleton.mp htask
      refine .pending (List.mem_of_getElem? hi) ?_ hfor hsince
      rw [htasks]
      exact List.mem_cons_self
  | @notifyRedirect k =>
    simp only [List.mem_append, List.mem_singleton, reduceCtorEq, or_false] at htask
    exact .task (List.mem_of_mem_eraseIdx htask) hfor hsince
  | @incrementVisit k => exact .task (List.mem_of_mem_eraseIdx htask) hfor hsince
  | @setString k => exact .task (List.mem_of_mem_eraseIdx htask) hfor hsince
  | retry =>
    simp only [List.mem_append, List.mem_singleton, reduceCtorEq, or_false] at htask
    exact .task htask hfor hsince
  | drop k => exact .task (List.mem_of_mem_eraseIdx htask) hfor hsince
  | _ => exact .task htask hfor hsince

/-- A call in progress was in progress before, with the same work items or one more, or it has
    just read its row. -/
theorem call_cases (h : Steps env tryCreate s e t) {call : Call} (hcall : call ∈ t.calls) :
    (∃ call' ∈ s.calls, call'.request = call.request ∧ call'.destinationUrl = call.destinationUrl ∧
      ∀ task ∈ call.tasks, task ∈ call'.tasks) ∨
    ∃ (v : ℕ) (visitor : Visitor), s.visitors[v]? = some visitor ∧
      visitor.request = call.request ∧
      redirect s visitor.id.range visitor.request.shortId = some (call.destinationUrl, call.tasks) := by
  cases h with
  | @redirect v visitor destinationUrl tasks hv hstage hredirect =>
    rcases List.mem_append.mp hcall with hcall | hcall
    · exact .inl ⟨call, hcall, rfl, rfl, fun _ h => h⟩
    · obtain rfl := List.mem_singleton.mp hcall
      exact .inr ⟨v, visitor, hv, rfl, hredirect⟩
  | @enqueue i call' task tasks hi htasks =>
    rcases List.mem_or_eq_of_mem_set hcall with hcall | rfl
    · exact .inl ⟨call, hcall, rfl, rfl, fun _ h => h⟩
    · refine .inl ⟨call', List.mem_of_getElem? hi, rfl, rfl, ?_⟩
      rw [htasks]
      exact fun _ h => List.mem_cons_of_mem _ h
  | @reply i => exact .inl ⟨call, List.mem_of_mem_eraseIdx hcall, rfl, rfl, fun _ h => h⟩
  | @replyAgain i => exact .inl ⟨call, List.mem_of_mem_eraseIdx hcall, rfl, rfl, fun _ h => h⟩
  | lose i => exact .inl ⟨call, List.mem_of_mem_eraseIdx hcall, rfl, rfl, fun _ h => h⟩
  | _ => exact .inl ⟨call, hcall, rfl, rfl, fun _ h => h⟩

theorem held_call (hs : Inv s) (h : Steps env tryCreate s e t) {call : Call} (hcall : call ∈ t.calls)
    (hparse : parseId call.request.shortId = .ret copy.id)
    (hdestination : call.destinationUrl = copy.destinationUrl)
    (hsince : copy.since ≤ call.request.timestamp) : Held delay s copy ∨ Read s copy := by
  rcases call_cases h hcall with ⟨call', hcall', hrequest, hdestination', -⟩ |
    ⟨v, visitor, hv, hrequest, hredirect⟩
  · rw [← hrequest] at hparse hsince
    rw [← hdestination'] at hdestination
    exact .inl (.call hcall' hparse hdestination hsince)
  · have hid := hs.visitor hv
    obtain ⟨url, hurl, hindex, hrow, -⟩ := redirect_eq_some hid hredirect
    rw [hrequest, hparse] at hid
    rw [← Exec.ret.inj hid] at hurl hindex
    have hnow := hs.timestamps visitor (List.mem_of_getElem? hv)
    rw [hrequest] at hnow
    exact .inr ⟨⟨url, hurl, hindex, hrow.trans hdestination⟩, hsince.trans hnow⟩

theorem held_pending (hs : Inv s) (h : Steps env tryCreate s e t) {call : Call}
    (hcall : call ∈ t.calls) {key : String} {readAt : ℕ}
    (htask : .setString key copy.destinationUrl readAt ∈ call.tasks)
    (hfor : Task.IsFor copy.id (.setString key copy.destinationUrl readAt))
    (hsince : copy.since ≤ readAt) : Held delay s copy ∨ Read s copy := by
  rcases call_cases h hcall with ⟨call', hcall', -, -, hsub⟩ | ⟨v, visitor, hv, -, hredirect⟩
  · exact .inl (.pending hcall' (hsub _ htask) hfor hsince)
  · have hid := hs.visitor hv
    obtain ⟨url, hurl, hindex, hrow, key', hkey', htasks⟩ := redirect_eq_some hid hredirect
    rw [htasks] at htask
    simp only [List.mem_cons, reduceCtorEq, Task.setString.injEq, List.not_mem_nil, or_false,
      false_or] at htask
    obtain ⟨rfl, hdestination, rfl⟩ := htask
    have hsame : visitor.id = copy.id := getUrlMappingKey_inj ⟨_, hid⟩ hfor.2 hkey' hfor.1
    rw [hsame] at hurl hindex
    exact .inr ⟨⟨url, hurl, hindex, hrow.trans hdestination.symm⟩, hsince⟩

/-- A visitor who is told a destination has just come by it. -/
theorem told_cases (h : Steps env tryCreate s e t) {visitor : Visitor} (hv : visitor ∈ t.visitors)
    {destinationUrl : String} (htold : visitor.Told destinationUrl) :
    (∃ visitor' ∈ s.visitors, visitor'.id = visitor.id ∧ visitor'.request = visitor.request ∧
      (visitor'.Told destinationUrl ∨
        ∃ key, getUrlMappingKey visitor'.id = .ret key ∧ s.getString key = some destinationUrl)) ∨
    ∃ call ∈ s.calls, call.destinationUrl = destinationUrl ∧
      ∃ visitor', s.visitors[call.visitor]? = some visitor' ∧ visitor'.id = visitor.id ∧
        visitor'.request = visitor.request := by
  cases h with
  | visit =>
    rcases List.mem_append.mp hv with hv | hv
    · exact .inl ⟨visitor, hv, rfl, rfl, .inl htold⟩
    · obtain rfl := List.mem_singleton.mp hv
      rcases htold with htold | htold <;> cases htold
  | @getString v visitor' key hv' hstage hkey =>
    rcases List.mem_or_eq_of_mem_set hv with hv | rfl
    · exact .inl ⟨visitor, hv, rfl, rfl, .inl htold⟩
    · refine .inl ⟨visitor', List.mem_of_getElem? hv', rfl, rfl, .inr ⟨key, hkey, ?_⟩⟩
      unfold Visitor.Told at htold
      cases hget : s.getString key with
      | none => simp [hget] at htold
      | some cachedUrl => simpa [hget] using htold
  | @notify v visitor' cachedUrl hv' hstage =>
    rcases List.mem_or_eq_of_mem_set hv with hv | rfl
    · exact .inl ⟨visitor, hv, rfl, rfl, .inl htold⟩
    · refine .inl ⟨visitor', List.mem_of_getElem? hv', rfl, rfl, .inl (.inl ?_)⟩
      rcases htold with htold | htold
      · cases htold
      · rw [hstage, Stage.answered.inj htold]
  | fail =>
    rcases List.mem_or_eq_of_mem_set hv with hv | rfl
    · exact .inl ⟨visitor, hv, rfl, rfl, .inl htold⟩
    · rcases htold with htold | htold <;> cases htold
  | @reply i call visitor' hi htasks hv' hstage =>
    rcases List.mem_or_eq_of_mem_set hv with hv | rfl
    · exact .inl ⟨visitor, hv, rfl, rfl, .inl htold⟩
    · refine .inr ⟨call, List.mem_of_getElem? hi, ?_, visitor', hv', rfl, rfl⟩
      rcases htold with htold | htold
      · cases htold
      · exact Stage.answered.inj htold
  | _ => exact .inl ⟨visitor, hv, rfl, rfl, .inl htold⟩

theorem held_visitor (hs : Inv s) (h : Steps env tryCreate s e t) {visitor : Visitor}
    (hv : visitor ∈ t.visitors) (hid : visitor.id = copy.id)
    (htold : visitor.Told copy.destinationUrl)
    (hsince : copy.since ≤ visitor.request.timestamp - (delay + mappingDuration)) :
    Held delay s copy := by
  rcases told_cases h hv htold with ⟨visitor', hv', hid', hrequest, hhow⟩ |
    ⟨call, hcall, hdestination, visitor', hv', hid', hrequest⟩
  · rw [← hid'] at hid
    rw [← hrequest] at hsince
    rcases hhow with htold | ⟨key, hkey, hget⟩
    · exact .visitor hv' hid htold hsince
    · -- the entry has not expired yet, and the visitor has come before
      simp only [State.getString, Option.bind_eq_some_iff, Option.ite_none_right_eq_some,
        Option.some.injEq] at hget
      obtain ⟨⟨data, deadline⟩, hentry, hlive, rfl⟩ := hget
      rw [hid] at hkey
      have hparsed : Parsed copy.id := ⟨_, hid ▸ hs.visitors visitor' hv'⟩
      have hcame := hs.timestamps visitor' hv'
      dsimp only at hlive
      exact .entry hentry hkey hparsed (by omega)
  · obtain ⟨visitor'', hv'', hrequest', -⟩ := hs.calls call hcall
    obtain rfl : visitor' = visitor'' := Option.some.inj (hv'.symm.trans hv'')
    have hparse := hs.visitor hv'
    rw [hrequest', hid', hid] at hparse
    refine .call hcall hparse hdestination ?_
    rw [← hrequest', hrequest]
    omega

/-- **What a step does to copies.** -/
theorem held_step (hs : Inv s) (hprompt : copy.since = 0 ∨ Prompt delay s e)
    (h : step env tryCreate s e = some t) (hheld : Held delay t copy) :
    Held delay s copy ∨ Read s copy := by
  have h := step_cases h
  cases hheld with
  | visitor hv hid htold hsince => exact .inl (held_visitor hs h hv hid htold hsince)
  | call hcall hparse hdestination hsince => exact held_call hs h hcall hparse hdestination hsince
  | pending hcall htask hfor hsince => exact held_pending hs h hcall htask hfor hsince
  | task htask hfor hsince => exact .inl (held_task h htask hfor hsince)
  | entry hentry hkey hparsed hsince => exact .inl (held_entry hprompt hs h hentry hkey hparsed hsince)

/-- Whatever a visitor is told, the row of the link had it at some time. -/
theorem told_passed {ok : State → Event → Prop} (h : Run (step env tryCreate) ok .init es s)
    (hok : ∀ s e, ok s e → copy.since = 0 ∨ Prompt delay s e) (hheld : Held delay s copy) :
    Passed (step env tryCreate) ok .init es s fun u => Read u copy := by
  have hinit : ¬ Held delay .init copy := by
    intro hheld
    cases hheld <;> simp_all [State.init]
  have hinv : ∀ s e t, Inv s → ok s e → step env tryCreate s e = some t → Inv t :=
    fun s e t hs _ hstep => hs.step hstep
  have hstep : ∀ s e t, Inv s → ok s e → step env tryCreate s e = some t → Held delay t copy →
      Held delay s copy ∨ Read s copy :=
    fun s e t hs ho hstep hheld => held_step hs (hok s e ho) hstep hheld
  exact h.provenance inv_init (fun hheld => absurd hheld hinit) hinv hstep hheld

/-! ## From the owner -/

/-- The steps of those who change links. -/
def linkEvents (es : List Event) : List Owner.Event :=
  es.filterMap fun
    | .links e => some e
    | _ => none

/-- What becomes of the links in a step: a step of those who change them, or rows that are
    dropped or counted. -/
theorem links_cases (h : Steps env tryCreate s e t) :
    (∃ e', e = .links e' ∧ Owner.step env tryCreate s.links e' = some t.links) ∨
    linkEvents [e] = [] ∧ (t.links = s.links ∨ ∃ r database,
      t.links = (s.setDatabase r database).links ∧
      database.urlSequence = (s.links.shards r).database.urlSequence ∧
      (Keyed (s.links.shards r).database → Keyed database) ∧
      ∀ row ∈ database.urls, ∃ row' ∈ (s.links.shards r).database.urls, row'.SameLink row) := by
  cases h with
  | links hcount hlinks => exact .inl ⟨_, rfl, hlinks⟩
  | deleteUser r userId =>
    refine .inr ⟨rfl, .inr ⟨r, _, rfl, rfl, fun h => h.filter _, ?_⟩⟩
    exact fun row hrow => ⟨row, (List.mem_filter.mp hrow).1, .refl row⟩
  | @incrementVisit k r =>
    refine .inr ⟨rfl, .inr ⟨r, _, rfl, rfl, fun h => h.incrementVisit _, ?_⟩⟩
    exact fun row hrow => sameLink_incrementVisit hrow
  | _ => exact .inr ⟨rfl, .inl rfl⟩

/-- A shard after the statement of one shard. -/
theorem shards_setDatabase (r r' : ℤ) (database : Database) :
    (s.setDatabase r database).links.shards r' =
      if r' = r then { s.links.shards r with database := database } else s.links.shards r' := by
  by_cases hr : r' = r
  · subst hr
    rw [if_pos rfl]
    exact State.setShard_self _ _ _
  · rw [if_neg hr]
    exact State.setShard_of_ne _ hr _

/-- Where requests and rows come from. -/
structure Origin (env : Globalization) (tryCreate : String → Option Uri) (es : List Event)
    (s : State) : Prop where
  asked : Owner.Inv env tryCreate (linkEvents es) s.links
  rows : ∀ r, ∀ row ∈ (s.links.shards r).database.urls,
    Owner.FromOwner env tryCreate (linkEvents es) r row
  keyed : ∀ r, Keyed (s.links.shards r).database

theorem origin_init : Origin env tryCreate [] .init where
  asked := ⟨by simp [State.init, Links.State.init], by simp [State.init, Links.State.init]⟩
  rows := by simp [State.init, Links.State.init, Database.init]
  keyed := fun _ => keyed_init

theorem Origin.step (hs : Origin env tryCreate es s) (h : step env tryCreate s e = some t) :
    Origin env tryCreate (es ++ [e]) t := by
  have happend : linkEvents (es ++ [e]) = linkEvents es ++ linkEvents [e] := List.filterMap_append
  rcases links_cases (step_cases h) with ⟨e', rfl, hlinks⟩ | ⟨hnone, hlinks⟩
  · have hlast : linkEvents [.links e'] = [e'] := rfl
    rw [hlast] at happend
    refine ⟨?_, ?_, Owner.keyed_step hs.keyed hlinks⟩
    · rw [happend]
      exact hs.asked.step hlinks
    · rw [happend]
      exact fun r row hrow => (Owner.fromOwner_step hs.asked hs.rows hlinks hrow).append [e']
  · rw [hnone, List.append_nil] at happend
    rcases hlinks with heq | ⟨r, database, heq, -, hkeyed, hrows⟩
    · exact ⟨by rw [happend, heq]; exact hs.asked, by rw [happend, heq]; exact hs.rows,
        by rw [heq]; exact hs.keyed⟩
    · refine ⟨?_, ?_, ?_⟩
      · rw [happend, heq]
        refine ⟨hs.asked.sent, ?_⟩
        intro r' call hcall
        rw [shards_setDatabase] at hcall
        split_ifs at hcall with hr
        · subst hr
          exact hs.asked.calls r' call hcall
        · exact hs.asked.calls r' call hcall
      · rw [happend, heq]
        intro r' row hrow
        rw [shards_setDatabase] at hrow
        split_ifs at hrow with hr
        · subst hr
          obtain ⟨row', hrow', hsame⟩ := hrows row hrow
          exact (hs.rows r' row' hrow').of_sameLink hsame
        · exact hs.rows r' row hrow
      · rw [heq]
        intro r'
        rw [shards_setDatabase]
        split_ifs with hr
        · exact hkeyed (hs.keyed r)
        · exact hs.keyed r'

theorem origin_run {ok : State → Event → Prop} (h : Run (step env tryCreate) ok .init es s) :
    Origin env tryCreate es s := by
  induction h with
  | nil => exact origin_init
  | snoc _ _ hstep ih => exact ih.step hstep

theorem inv_run {ok : State → Event → Prop} (h : Run (step env tryCreate) ok .init es s) : Inv s :=
  h.invariant inv_init fun _ _ _ hs _ hstep => hs.step hstep

/-! ## Main results -/

/-- **What visitors are told comes from the owner.** If a visitor is told a destination, then
    at some time a row of the link he asked for had it, and a client had asked for it with a
    token of the user of that row. -/
theorem told_from_owner (h : Run (step env tryCreate) always .init es s) {visitor : Visitor}
    (hv : visitor ∈ s.visitors) {destinationUrl : String} (htold : visitor.Told destinationUrl) :
    ∃ es₁ es₂ u row, es = es₁ ++ es₂ ∧ Run (step env tryCreate) always .init es₁ u ∧
      row ∈ (u.links.shards visitor.id.range).database.urls ∧ row.id = visitor.id.index ∧
      row.destinationUrl = destinationUrl ∧
      Owner.FromOwner env tryCreate (linkEvents es₁) visitor.id.range row := by
  have hheld : Held 0 s ⟨visitor.id, destinationUrl, 0⟩ :=
    .visitor hv rfl htold (Nat.zero_le _)
  obtain ⟨es₁, es₂, u, rfl, h₁, -, ⟨row, hrow, hid, hdestination⟩, -⟩ :=
    told_passed h (fun _ _ _ => .inl rfl) hheld
  exact ⟨es₁, es₂, u, row, rfl, h₁, hrow, hid, hdestination,
    (origin_run h₁).rows visitor.id.range row hrow⟩

/-- **What visitors are told is not old.** If no entry is written later than `delay` after its
    row was read, a visitor is told a destination that the row had at most `delay` and the five
    minutes of an entry before he came. -/
theorem told_recently (h : Run (step env tryCreate) (Prompt delay) .init es s) {visitor : Visitor}
    (hv : visitor ∈ s.visitors) {destinationUrl : String} (htold : visitor.Told destinationUrl) :
    Passed (step env tryCreate) (Prompt delay) .init es s fun u =>
      Stored u visitor.id destinationUrl ∧
        visitor.request.timestamp ≤ u.now + (delay + mappingDuration) := by
  have hheld : Held delay s
      ⟨visitor.id, destinationUrl, visitor.request.timestamp - (delay + mappingDuration)⟩ :=
    .visitor hv rfl htold le_rfl
  refine (told_passed h (fun _ _ ho => .inr ho) hheld).mono ?_
  rintro u ⟨hstored, hnow⟩
  dsimp only at hnow
  exact ⟨hstored, by omega⟩

/-! ## Links that do not change -/

/-- The step replaces the destination of the link. -/
def Updates (id : ShortId) (s : State) (e : Event) : Prop :=
  ∃ i call, e = .links (.shard id.range (.execute i)) ∧
    (s.links.shards id.range).calls[i]? = some call ∧ call.Updates id.index

/-- A row that is new is not for the link. -/
def Known (id : ShortId) (s : State) : Prop :=
  id.index ≤ (s.links.shards id.range).database.urlSequence

theorem Known.step {id : ShortId} (hs : Known id s) (h : step env tryCreate s e = some t) :
    Known id t := by
  refine hs.trans ?_
  rcases links_cases (step_cases h) with ⟨e', rfl, hlinks⟩ | ⟨-, heq | ⟨r, database, heq, hseq, -⟩⟩
  · rcases Owner.step_shard hlinks id.range with heq | ⟨e', rfl, hshard⟩
    · rw [heq]
    · exact step_urlSequence hshard
  · rw [heq]
  · rw [heq, shards_setDatabase]
    split_ifs with hr
    · subst hr
      exact hseq.ge
    · exact le_rfl

theorem known_of_stored (hs : Origin env tryCreate es s) {id : ShortId} {destinationUrl : String}
    (h : Stored s id destinationUrl) : Known id s := by
  obtain ⟨url, hurl, hid, -⟩ := h
  rw [Known, ← hid]
  exact (hs.keyed id.range).le url hurl

/-- If there is a row for the link, it has the destination. -/
structure Leads (id : ShortId) (destinationUrl : String) (s : State) : Prop where
  row : ∀ row ∈ (s.links.shards id.range).database.urls, row.id = id.index →
    row.destinationUrl = destinationUrl
  known : Known id s

theorem leads_of_stored (hs : Origin env tryCreate es s) {id : ShortId} {destinationUrl : String}
    (h : Stored s id destinationUrl) : Leads id destinationUrl s := by
  refine ⟨?_, known_of_stored hs h⟩
  obtain ⟨url, hurl, hid, hdestination⟩ := h
  intro row hrow hrowid
  rw [(hs.keyed id.range).eq hrow hurl (hrowid.trans hid.symm), hdestination]

/-- A link leads where it led until it is updated, also after it is gone. -/
theorem Leads.step {id : ShortId} {destinationUrl : String} (hs : Leads id destinationUrl s)
    (hno : ¬ Updates id s e) (h : step env tryCreate s e = some t) : Leads id destinationUrl t := by
  have hsame : ∀ row ∈ (t.links.shards id.range).database.urls, row.id = id.index →
      ∃ row' ∈ (s.links.shards id.range).database.urls, row'.SameLink row := by
    rcases links_cases (step_cases h) with ⟨e', rfl, hlinks⟩ | ⟨-, heq | ⟨r, database, heq, -, -, hrows⟩⟩
    · rcases Owner.step_shard hlinks id.range with heq | ⟨e', rfl, hshard⟩
      · rw [heq]
        exact fun row hrow _ => ⟨row, hrow, .refl row⟩
      · intro row hrow hid
        refine step_sameLink hshard hrow (hid ▸ hs.known) ?_
        rintro i call rfl hi hupdates
        exact hno ⟨i, call, rfl, hi, hid ▸ hupdates⟩
    · rw [heq]
      exact fun row hrow _ => ⟨row, hrow, .refl row⟩
    · rw [heq, shards_setDatabase]
      split_ifs with hr
      · subst hr
        exact fun row hrow _ => hrows row hrow
      · exact fun row hrow _ => ⟨row, hrow, .refl row⟩
  refine ⟨?_, hs.known.step h⟩
  intro row hrow hid
  obtain ⟨row', hrow', hlink⟩ := hsame row hrow hid
  rw [hlink.destinationUrl]
  exact hs.row row' hrow' (hlink.id.symm.trans hid)

/-- **A link leads where its row says.** If the destination of a row has never been replaced, a
    visitor who follows the short id of the row is told this destination and no other. -/
theorem link_leads (id : ShortId)
    (h : Run (step env tryCreate) (fun s e => ¬ Updates id s e) .init es s)
    (hr : IsShardId id.range) {row : UrlRow}
    (hrow : row ∈ (s.links.shards id.range).database.urls)
    (hid : row.id = id.index) (hindex : id.index < rangeSize) {visitor : Visitor}
    (hv : visitor ∈ s.visitors) (hfollows : id.toString = .ret visitor.request.shortId)
    {destinationUrl : String} (htold : visitor.Told destinationUrl) :
    destinationUrl = row.destinationUrl := by
  have hpos := ((origin_run h).keyed id.range).pos row hrow
  have hparse : parseId visitor.request.shortId = .ret id := by
    refine (parseId_toString_iff hr (by omega) ?_ hfollows).mpr hindex
    unfold rangeSize at hindex
    omega
  have hsame : visitor.id = id := Exec.ret.inj (((inv_run h).visitors visitor hv).symm.trans hparse)
  have hheld : Held 0 s ⟨visitor.id, destinationUrl, 0⟩ := .visitor hv rfl htold (Nat.zero_le _)
  rw [hsame] at hheld
  obtain ⟨es₁, es₂, u, rfl, h₁, h₂, hstored, -⟩ := told_passed h (fun _ _ _ => .inl rfl) hheld
  have hleads : Leads id destinationUrl s :=
    h₂.invariant (leads_of_stored (origin_run h₁) hstored) fun _ _ _ hs hno hstep =>
      hs.step hno hstep
  exact (hleads.row row hrow hid).symm

/-! ## Two visitors -/

/-- Steps of those who change links alone. -/
theorem run_links {ok : State → Event → Prop} {s : State} {l l' : Links.State} {es : List Owner.Event}
    (h : Run (Owner.step env tryCreate)
      (fun l e => ¬ IsCount e ∧ ok { s with links := l } (.links e)) l es l') :
    Run (step env tryCreate) ok { s with links := l } (es.map .links) { s with links := l' } := by
  induction h with
  | nil => exact .nil
  | snoc _ ho hstep ih =>
    rw [List.map_append]
    exact ih.snoc ho.2 (step_of_steps (.links ho.1 hstep))

theorem parseId_firstLink : parseId "1LafLC9" = .ret ⟨1, 1⟩ := by decide +kernel

theorem toString_firstLink : ShortId.toString ⟨1, 1⟩ = .ret "1LafLC9" :=
  toString_of_parseId parseId_firstLink

theorem getUrlMappingKey_firstLink : getUrlMappingKey ⟨1, 1⟩ = .ret "Url-Mapping:1LafLC9" :=
  getUrlMappingKey_eq_ret.mpr ⟨_, toString_firstLink, rfl⟩

theorem index_firstLink : index (fun _ => true) "1LafLC9" = .ret (some ⟨1, 1⟩) := by
  have hrule : shortIdRule "1LafLC9" = true := by decide +kernel
  rw [index, hrule, parseId_firstLink]
  rfl

/-- The tasks of a call that reads the link. -/
def firstTasks (readAt : ℕ) : List Task :=
  [.incrementVisit 1 "1LafLC9", .setString "Url-Mapping:1LafLC9" "https://example.com/1" readAt]

theorem redirect_firstLink {s : State} (hs : s.links.shards 1 = ⟨Owner.oneLink, []⟩) :
    redirect s 1 "1LafLC9" = some ("https://example.com/1", firstTasks s.now) := by
  have hget : Owner.oneLink.getByUrlId 1 = .ok (some Owner.firstLink) := by decide +kernel
  have htasks : redirectTasks s 1 "1LafLC9" Owner.firstLink = .ret (firstTasks s.now) := by
    rw [redirectTasks, show Owner.firstLink.id = 1 from rfl, getUrlMappingKey_firstLink]
    rfl
  simp only [redirect, parseId_firstLink, hs, hget, htasks]
  rfl

/-- Entries are written at once, the first link is not updated, and nothing is lost. -/
def Calm (s : State) (e : Event) : Prop := Prompt 0 s e ∧ ¬ Updates ⟨1, 1⟩ s e ∧ Faultless s e

theorem calm_of_ne {s : State} {e : Event} (hrun : ∀ k, e ≠ .run k)
    (hexecute : ∀ i, e ≠ .links (.shard 1 (.execute i))) (hfaultless : Faultless s e) : Calm s e :=
  ⟨fun k _ _ _ he => absurd he (hrun k), fun ⟨i, _, he, _⟩ => hexecute i he, hfaultless⟩

/-- User 7 of shard 1 creates his link. -/
theorem run_create :
    ∃ l, Run (step .invariantMode Owner.oneUri) Calm .init
        (List.map .links
          [.request Owner.owner.toString (.restCreate "https://example.com/1") (fun _ => true),
            .deliver 0, .shard 1 (.getOrAdd 0), .shard 1 (.execute 0)])
        { State.init with links := l } ∧ l.shards 1 = ⟨Owner.oneLink, []⟩ := by
  have huri : Owner.createRequest.uri Owner.oneUri = some ⟨"https", "example.com", "/1"⟩ := by
    decide +kernel
  have hdomain : Database.init.getOrAdd .invariantMode "example.com" =
      ({ Database.init with domains := [⟨1, "example.com"⟩], domainSequence := 1 },
        ⟨1, "example.com"⟩) := by
    decide +kernel
  have hgetOrAdd : Links.step .invariantMode Owner.oneUri
      (⟨.init, [⟨Owner.owner.toString, Owner.createRequest, none⟩]⟩ : Shard String) (.getOrAdd 0) =
        some ⟨{ Database.init with domains := [⟨1, "example.com"⟩], domainSequence := 1 },
          [⟨Owner.owner.toString, Owner.createRequest, some 1⟩]⟩ := by
    simp only [Links.step, List.getElem?_cons_zero, huri, hdomain]
    rfl
  have hcalm : ∀ {l : Links.State} {e : Owner.Event}, (∀ i, e ≠ .shard 1 (.execute i)) →
      Calm { State.init with links := l } (.links e) := by
    intro l e he
    refine calm_of_ne (by simp) ?_ trivial
    rintro i ⟨⟩
    exact he i rfl
  have h0 : Run (Owner.step .invariantMode Owner.oneUri) (fun l e => ¬ IsCount e ∧
      Calm { State.init with links := l } (.links e)) .init [] .init := .nil
  have h1 := h0.snoc ⟨by simp [IsCount], hcalm (by simp)⟩
    (Owner.step_request_of Owner.handle_createRequest)
  have h2 := h1.snoc ⟨by simp [IsCount], hcalm (by simp)⟩ (Owner.step_deliver_of (k := 0) rfl)
  have h3 := h2.snoc ⟨by simp [IsCount], hcalm (by simp)⟩
    (Owner.step_shard_of (by simp [Owner.IsArrival]) (State.setShard_self _ _ _) hgetOrAdd)
  have h4 := h3.snoc (e := .shard 1 (.execute 0)) ⟨by simp [IsCount], ?_, ?_, trivial⟩
    (Owner.step_shard_of (by simp [Owner.IsArrival]) (State.setShard_self _ _ _) rfl)
  · exact ⟨_, run_links h4, State.setShard_self _ _ _⟩
  · rintro k key data readAt ⟨⟩
  · rintro ⟨i, call, he, hi, userId, shortId, destinationUrl, id, hrequest, -⟩
    obtain rfl : i = 0 := by simpa using he.symm
    simp only [State.setShard_self, List.getElem?_cons_zero, Option.some.injEq] at hi
    rw [← hi] at hrequest
    cases hrequest

theorem run_ticks {s : State} {es : List Event}
    (h : Run (step .invariantMode Owner.oneUri) Calm .init es s) (n : ℕ) {m : ℕ}
    (hm : s.now + n = m) :
    Run (step .invariantMode Owner.oneUri) Calm .init (es ++ List.replicate n .tick)
      { s with now := m } := by
  rw [← hm]
  exact Run.replicate (e := .tick) (f := fun n => { s with now := s.now + n }) h
    (fun _ => calm_of_ne (by simp) (by simp) (by trivial)) (fun _ => rfl) n

/-- The first link after a visit. -/
def visitedLink : UrlRow := { Owner.firstLink with totalViews := 1 }

/-- A step of a visitor, or of the call that serves him. -/
theorem run_visitor {s t : State} {es : List Event} {e : Event}
    (h : Run (step .invariantMode Owner.oneUri) Calm .init es s)
    (hother : (∀ k, e ≠ .run k) ∧ (∀ e', e ≠ .links e') ∧ Faultless s e)
    (hstep : Steps .invariantMode Owner.oneUri s e t) :
    Run (step .invariantMode Owner.oneUri) Calm .init (es ++ [e]) t :=
  have ⟨hrun, hlinks, hfaultless⟩ := hother
  h.snoc (calm_of_ne hrun (fun _ => hlinks _) hfaultless) (step_of_steps hstep)

/-- A first visitor comes after 200 seconds and asks the shard; his visit is counted, and the
    entry is written. A second one comes after 200 more. -/
theorem run_firstVisitor :
    ∃ es s, Run (step .invariantMode Owner.oneUri) Calm .init es s ∧
      s.links.shards 1 = ⟨{ Owner.oneLink with urls := [visitedLink] }, []⟩ ∧
      s.visitors =
        [⟨⟨1, 1⟩, ⟨"1LafLC9", 200000⟩, .answered "https://example.com/1"⟩,
          ⟨⟨1, 1⟩, ⟨"1LafLC9", 400000⟩, .looking⟩] ∧
      s.calls = [] ∧ s.getString "Url-Mapping:1LafLC9" = some "https://example.com/1" := by
  obtain ⟨l, h0, hl⟩ := run_create
  have h1 := run_visitor (run_ticks h0 200000 (Nat.zero_add 200000))
    ⟨by simp, by simp, by trivial⟩ (.visit index_firstLink toString_firstLink)
  have h2 := run_visitor h1 ⟨by simp, by simp, by trivial⟩
    (.getString (v := 0) rfl rfl getUrlMappingKey_firstLink)
  have h3 := run_visitor h2 ⟨by simp, by simp, by simp [Faultless, State.setStage, State.init]⟩
    (.redirect (v := 0) rfl rfl (redirect_firstLink hl))
  have h4 := run_visitor h3 ⟨by simp, by simp, by trivial⟩ (.enqueue (i := 0) rfl rfl)
  have h5 := run_visitor h4 ⟨by simp, by simp, by trivial⟩ (.enqueue (i := 0) rfl rfl)
  have h6 := run_visitor h5 ⟨by simp, by simp, by trivial⟩ (.reply (i := 0) rfl rfl rfl rfl)
  have hroom : HasRoom Owner.oneLink 1 := by decide
  have hlinks : (l.setShard 1 { l.shards 1 with
      database := (l.shards 1).database.incrementVisit 1 }).shards 1 =
        ⟨{ Owner.oneLink with urls := [visitedLink] }, []⟩ := by
    rw [State.setShard_self, hl]
    rfl
  have hno : ∀ {s : State}, ¬ Updates ⟨1, 1⟩ s (.run 0) := by
    rintro s ⟨i, call, he, -⟩
    cases he
  have h7 := h6.snoc (e := .run 0) ⟨?_, hno, by trivial⟩
    (step_of_steps (.incrementVisit (k := 0) rfl parseId_firstLink (hl ▸ hroom)))
  have h8 := h7.snoc (e := .run 0) ⟨?_, hno, by trivial⟩ (step_of_steps (.setString (k := 0) rfl))
  have h9 := run_visitor (run_ticks h8 200000 (show 200000 + 200000 = 400000 by norm_num))
    ⟨by simp, by simp, by trivial⟩ (.visit index_firstLink toString_firstLink)
  · refine ⟨_, _, h9, hlinks, rfl, rfl, ?_⟩
    simp [State.getString, State.setStage, State.setDatabase, State.init, mappingDuration]
  · intro k key data readAt he hk
    cases he
    cases hk
    exact le_rfl
  · intro k key data readAt he hk
    cases he
    cases hk

/-- The second visitor of the run. -/
def secondVisitor : Visitor := ⟨⟨1, 1⟩, ⟨"1LafLC9", 400000⟩, .answered "https://example.com/1"⟩

/-- The second visitor finds the entry, and his visit is still to be counted. -/
theorem run_twoVisitors :
    ∃ es s, Run (step .invariantMode Owner.oneUri) Calm .init es s ∧
      s.links.shards 1 = ⟨{ Owner.oneLink with urls := [visitedLink] }, []⟩ ∧
      s.visitors =
        [⟨⟨1, 1⟩, ⟨"1LafLC9", 200000⟩, .answered "https://example.com/1"⟩, secondVisitor] ∧
      s.calls = [] := by
  obtain ⟨es, s, h1, hlinks, hvisitors, hcalls, hhit⟩ := run_firstVisitor
  have hlooking : s.visitors[1]? = some ⟨⟨1, 1⟩, ⟨"1LafLC9", 400000⟩, .looking⟩ := by
    rw [hvisitors]
    rfl
  have h2 := run_visitor h1 ⟨by simp, by simp, by trivial⟩
    (.getString hlooking rfl getUrlMappingKey_firstLink)
  rw [hhit] at h2
  have hfound :
      (s.visitors.set 1 ⟨⟨1, 1⟩, ⟨"1LafLC9", 400000⟩, .found "https://example.com/1"⟩)[1]? =
        some ⟨⟨1, 1⟩, ⟨"1LafLC9", 400000⟩, .found "https://example.com/1"⟩ := by
    rw [hvisitors]
    rfl
  have h3 := run_visitor h2 ⟨by simp, by simp, by trivial⟩ (.notify hfound rfl)
  refine ⟨_, _, h3, hlinks, ?_, hcalls⟩
  simp [State.setStage, hvisitors, secondVisitor]

theorem told_from_owner_twoVisitors :
    ∃ es₁ u row, Run (step .invariantMode Owner.oneUri) always .init es₁ u ∧
      row ∈ (u.links.shards 1).database.urls ∧ row.id = 1 ∧
      row.destinationUrl = "https://example.com/1" ∧
      Owner.FromOwner .invariantMode Owner.oneUri (linkEvents es₁) 1 row := by
  obtain ⟨es, s, h, -, hvisitors, -⟩ := run_twoVisitors
  have hv : secondVisitor ∈ s.visitors := by simp [hvisitors, secondVisitor]
  obtain ⟨es₁, es₂, u, row, -, hrun, hrow⟩ := told_from_owner h.always hv (.inr rfl)
  exact ⟨es₁, u, row, hrun, hrow⟩

/-- The second visitor is told what the row had after 100 seconds or later. -/
theorem told_recently_twoVisitors :
    ∃ es s, Run (step .invariantMode Owner.oneUri) (Prompt 0) .init es s ∧
      secondVisitor ∈ s.visitors ∧
      Passed (step .invariantMode Owner.oneUri) (Prompt 0) .init es s fun u =>
        Stored u ⟨1, 1⟩ "https://example.com/1" ∧ 400000 ≤ u.now + (0 + mappingDuration) := by
  obtain ⟨es, s, h, -, hvisitors, -⟩ := run_twoVisitors
  have hv : secondVisitor ∈ s.visitors := by simp [hvisitors, secondVisitor]
  have hprompt : Run (step .invariantMode Owner.oneUri) (Prompt 0) .init es s :=
    h.mono fun _ _ hcalm => hcalm.1
  exact ⟨es, s, hprompt, hv, told_recently hprompt hv (.inr rfl)⟩

/-- The second visitor is told what the row says. -/
theorem link_leads_twoVisitors :
    ∃ es s, Run (step .invariantMode Owner.oneUri) (fun s e => ¬ Updates ⟨1, 1⟩ s e) .init es s ∧
      visitedLink ∈ (s.links.shards 1).database.urls ∧ secondVisitor ∈ s.visitors ∧
      ShortId.toString ⟨1, 1⟩ = .ret secondVisitor.request.shortId ∧
      secondVisitor.Told visitedLink.destinationUrl ∧
      ∀ destinationUrl, secondVisitor.Told destinationUrl →
        destinationUrl = visitedLink.destinationUrl := by
  obtain ⟨es, s, h, hlinks, hvisitors, -⟩ := run_twoVisitors
  have hv : secondVisitor ∈ s.visitors := by simp [hvisitors, secondVisitor]
  have hrow : visitedLink ∈ (s.links.shards 1).database.urls := by simp [hlinks]
  have hkept : Run (step .invariantMode Owner.oneUri) (fun s e => ¬ Updates ⟨1, 1⟩ s e) .init es s :=
    h.mono fun _ _ hcalm => hcalm.2.1
  exact ⟨es, s, hkept, hrow, hv, toString_firstLink, .inr rfl, fun _ =>
    link_leads ⟨1, 1⟩ hkept (by decide) hrow rfl (by decide) hv toString_firstLink⟩

end Shortener.Redirects
