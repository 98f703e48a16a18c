import Shortener.Common.Parties
import Shortener.Redirects.Integrity

/-!
# Counting visits

A visitor who finds the entry is counted through `NotifyRedirect`, the others through
`Redirect`.

* `balance_step`: a step that loses nothing and tries nothing again moves a visit on.
* `views_step`: only the work item of `IncrementVisitInBackground` counts.
* `totalViews_lag`: so `TotalViews` lags behind the visitors who were answered by the visits
  still on their way.
-/

namespace Shortener.Redirects

open Shortener.Common Shortener.DotNet Shortener.Codec Shortener.Links Shortener.Stats

variable {env : Globalization} {tryCreate : String → Option Uri} {s t : State} {e : Event}
  {es : List Event} {id : ShortId}

/-! ## Visits -/

/-- The work item counts a visit of the link. -/
def Task.Counts (id : ShortId) : Task → Bool
  | .notifyRedirect shortId => parseId shortId = .ret id
  | .incrementVisit _ shortId => parseId shortId = .ret id
  | .setString _ _ _ => false

/-- The visitor has been answered. -/
def Stage.IsAnswered : Stage → Bool
  | .answered _ => true
  | _ => false

/-- The work items, with those that calls still have to enqueue. -/
def State.allTasks (s : State) : List Task := s.tasks ++ s.calls.flatMap Call.tasks

/-- The visits of the link that are not counted yet. -/
def State.uncounted (s : State) (id : ShortId) : ℕ := s.allTasks.countP (Task.Counts id)

/-- The visitors of the link who have been answered. -/
def State.answered (s : State) (id : ShortId) : ℕ :=
  s.visitors.countP fun visitor => decide (visitor.id = id) && visitor.stage.IsAnswered

/-- The visitors of the link to whom a shard is about to reply. -/
def State.calling (s : State) (id : ShortId) : ℕ :=
  s.calls.countP fun call => decide (parseId call.request.shortId = .ret id)

/-! ## Visits on their way -/

/-- Calls in progress are for different visitors, who wait for them. -/
structure Busy (s : State) : Prop where
  nodup : (s.calls.map Call.visitor).Nodup
  asking : ∀ call ∈ s.calls, ∀ visitor, s.visitors[call.visitor]? = some visitor →
    visitor.stage = .asking

theorem busy_init : Busy .init := ⟨by simp [State.init], by simp [State.init]⟩

/-- A visitor who does not wait for a call has got on. -/
theorem Busy.setStage (hs : Busy s) {v : ℕ} (visitor : Visitor) (stage : Stage)
    (hv : ∀ call ∈ s.calls, call.visitor ≠ v) : Busy (s.setStage v visitor stage) := by
  refine ⟨hs.nodup, ?_⟩
  intro call hcall visitor' hv'
  rw [State.setStage, List.getElem?_set_ne (hv call hcall).symm] at hv'
  exact hs.asking call hcall visitor' hv'

theorem Busy.ne (hs : Busy s) {v : ℕ} {visitor : Visitor} (hv : s.visitors[v]? = some visitor)
    (hstage : visitor.stage ≠ .asking) : ∀ call ∈ s.calls, call.visitor ≠ v := by
  rintro call hcall rfl
  exact hstage (hs.asking call hcall visitor hv)

theorem Busy.step (hi : Inv s) (hs : Busy s) (hok : Faultless s e)
    (h : step env tryCreate s e = some t) : Busy t := by
  cases step_cases h with
  | visit =>
    refine ⟨hs.nodup, ?_⟩
    intro call hcall visitor hv
    obtain ⟨visitor', hv', -⟩ := hi.calls call hcall
    have hlt := (List.getElem?_eq_some_iff.mp hv').1
    rw [List.getElem?_append_left hlt] at hv
    exact hs.asking call hcall visitor hv
  | getString hv hstage => exact hs.setStage _ _ (hs.ne hv (by simp [hstage]))
  | @notify v visitor cachedUrl hv hstage =>
    have hset := hs.setStage visitor (.answered cachedUrl)
      (hs.ne hv (by simp [hstage]))
    exact ⟨hset.nodup, hset.asking⟩
  | fail => exact hok.elim
  | @redirect v visitor destinationUrl tasks hv hstage =>
    refine ⟨?_, ?_⟩
    · rw [List.map_append]
      refine List.Nodup.append hs.nodup (List.nodup_singleton _) ?_
      intro w hw hnew
      obtain ⟨call, hcall, rfl⟩ := List.mem_map.mp hw
      exact hok call hcall (by simpa using hnew)
    · intro call hcall visitor' hv'
      rcases List.mem_append.mp hcall with hcall | hcall
      · exact hs.asking call hcall visitor' hv'
      · obtain rfl := List.mem_singleton.mp hcall
        obtain rfl : visitor = visitor' := Option.some.inj (hv.symm.trans hv')
        exact hstage
  | @enqueue i call task tasks hi' htasks =>
    refine ⟨?_, ?_⟩
    · have hset := (perm_set hi' { call with tasks := tasks }).map Call.visitor
      have hsame := (perm_eraseIdx hi').map Call.visitor
      exact (hset.trans hsame.symm).nodup_iff.mpr hs.nodup
    · intro call' hcall visitor hv
      rcases List.mem_or_eq_of_mem_set hcall with hcall | rfl
      · exact hs.asking call' hcall visitor hv
      · exact hs.asking call (List.mem_of_getElem? hi') visitor hv
  | @reply i call visitor hi' htasks hv hstage =>
    have hperm := (perm_eraseIdx hi').map Call.visitor
    have hnodup := hperm.nodup_iff.mp hs.nodup
    rw [List.map_cons, List.nodup_cons] at hnodup
    refine ⟨hnodup.2, ?_⟩
    intro call' hcall visitor' hv'
    have hne : call.visitor ≠ call'.visitor := by
      intro heq
      exact hnodup.1 (heq ▸ List.mem_map_of_mem hcall)
    have hv' : s.visitors[call'.visitor]? = some visitor' := by
      rw [← hv']
      exact (List.getElem?_set_ne hne).symm
    exact hs.asking call' (List.mem_of_mem_eraseIdx hcall) visitor' hv'
  | @replyAgain i call visitor hi' _ hv hstage =>
    exact absurd (hs.asking call (List.mem_of_getElem? hi') visitor hv) hstage
  | lose => exact hok.elim
  | retry => exact hok.elim
  | drop => exact hok.elim
  | _ => exact ⟨hs.nodup, hs.asking⟩

theorem busy_run (h : Run (step env tryCreate) Faultless .init es s) : Busy s := by
  induction h with
  | nil => exact busy_init
  | snoc hrun hok hstep ih => exact ih.step (inv_run hrun) hok hstep

/-- 1 if the step counts a visit of the link. -/
def counted (id : ShortId) (s : State) : Event → ℕ
  | .run k =>
    match s.tasks[k]? with
    | some (.incrementVisit _ shortId) => (decide (parseId shortId = .ret id)).toNat
    | _ => 0
  | _ => 0

theorem answered_setStage (id : ShortId) {v : ℕ} {visitor : Visitor} (hv : s.visitors[v]? = some visitor)
    (hnot : visitor.stage.IsAnswered = false) (stage : Stage) :
    (s.setStage v visitor stage).answered id =
      s.answered id + (decide (visitor.id = id) && stage.IsAnswered).toNat := by
  have hset := countP_set hv { visitor with stage := stage } fun visitor =>
    decide (visitor.id = id) && visitor.stage.IsAnswered
  simpa [State.answered, State.setStage, hnot] using hset

theorem counts_visitor (id : ShortId) (hi : Inv s) {v : ℕ} {visitor : Visitor}
    (hv : s.visitors[v]? = some visitor) :
    decide (parseId visitor.request.shortId = .ret id) = decide (visitor.id = id) := by
  rw [hi.visitor hv, decide_eq_decide]
  exact ⟨Exec.ret.inj, congrArg _⟩

/-- **Where a visit goes.** A visit that is counted is one on its way, and a visitor who is
    answered is on his way to a shard or to be counted. -/
theorem balance_step (hi : Inv s) (hs : Busy s) (hok : Faultless s e)
    (h : step env tryCreate s e = some t) (id : ShortId) :
    t.uncounted id + counted id s e + s.answered id + s.calling id =
      s.uncounted id + t.answered id + t.calling id := by
  cases step_cases h with
  | visit =>
    simp [State.uncounted, State.allTasks, State.answered, State.calling, counted,
      Stage.IsAnswered]
  | @getString v visitor key hv hstage =>
    have hset := answered_setStage id hv (by simp [hstage, Stage.IsAnswered])
      ((s.getString key).elim .asking .found)
    have hnot : ((s.getString key).elim Stage.asking Stage.found).IsAnswered = false := by
      cases s.getString key <;> rfl
    rw [hnot, Bool.and_false, Bool.toNat_false] at hset
    rw [hset]
    rfl
  | @notify v visitor cachedUrl hv hstage =>
    have hset := answered_setStage id hv (by simp [hstage, Stage.IsAnswered])
      (.answered cachedUrl)
    have hcount := counts_visitor id hi hv
    simp only [Stage.IsAnswered, Bool.and_true] at hset
    simp only [State.uncounted, State.allTasks, counted, countP_singleton', List.countP_append, hcount,
      Task.Counts]
    simp only [State.answered, State.calling] at hset ⊢
    simp only [State.setStage] at hset ⊢
    omega
  | fail => exact hok.elim
  | @redirect v visitor destinationUrl tasks hv hstage hredirect =>
    obtain ⟨url, -, -, -, key, -, rfl⟩ := redirect_eq_some (hi.visitor hv) hredirect
    simp only [State.uncounted, State.allTasks, State.answered, State.calling, counted,
      List.flatMap_append, List.flatMap_singleton, List.countP_append, countP_cons',
      List.countP_nil, Task.Counts, Bool.toNat_false]
    omega
  | @enqueue i call task tasks hi' htasks =>
    have hcalling := countP_set hi' { call with tasks := tasks } fun call =>
      decide (parseId call.request.shortId = .ret id)
    have hset := (flatMap_set hi' { call with tasks := tasks } Call.tasks).countP_eq (Task.Counts id)
    have hold := (flatMap_eraseIdx hi' Call.tasks).countP_eq (Task.Counts id)
    rw [htasks] at hold
    dsimp only at hcalling hset
    simp only [List.countP_append, countP_cons'] at hset hold
    simp only [State.uncounted, State.allTasks, State.answered, State.calling, counted,
      countP_singleton', List.countP_append]
    omega
  | @reply i call visitor hi' htasks hv hstage =>
    have hset := answered_setStage id hv (by simp [hstage, Stage.IsAnswered])
      (.answered call.destinationUrl)
    obtain ⟨visitor', hv', hrequest, -⟩ := hi.call hi'
    obtain rfl : visitor = visitor' := Option.some.inj (hv.symm.trans hv')
    have hcount := counts_visitor id hi hv
    have hcalling := countP_eraseIdx hi' fun call => decide (parseId call.request.shortId = .ret id)
    have hold := (flatMap_eraseIdx hi' Call.tasks).countP_eq (Task.Counts id)
    rw [htasks, List.nil_append] at hold
    rw [← hrequest, hcount] at hcalling
    simp only [Stage.IsAnswered, Bool.and_true] at hset
    simp only [State.uncounted, State.allTasks, counted, List.countP_append, hold]
    simp only [State.answered, State.calling, State.setStage] at hset hcalling ⊢
    omega
  | @replyAgain i call visitor hi' _ hv hstage =>
    exact absurd (hs.asking call (List.mem_of_getElem? hi') visitor hv) hstage
  | lose => exact hok.elim
  | @notifyRedirect k shortId id' hk hid =>
    have hold := countP_eraseIdx hk (Task.Counts id)
    simp only [Task.Counts] at hold
    simp only [State.uncounted, State.allTasks, State.answered, State.calling, counted, hk,
      countP_singleton', List.countP_append, Task.Counts]
    omega
  | @incrementVisit k shardId shortId id' hk hid =>
    have hold := countP_eraseIdx hk (Task.Counts id)
    simp only [Task.Counts] at hold
    simp only [State.uncounted, State.allTasks, State.answered, State.calling, counted, hk,
      List.countP_append, State.setDatabase]
    omega
  | @setString k key data readAt hk =>
    have hold := countP_eraseIdx hk (Task.Counts id)
    simp only [Task.Counts, Bool.toNat_false] at hold
    simp only [State.uncounted, State.allTasks, State.answered, State.calling, counted, hk,
      List.countP_append]
    omega
  | retry => exact hok.elim
  | drop => exact hok.elim
  | _ => rfl

/-! ## Rows -/

/-- **What counts.** A row that is not new has one view more if the step counts a visit of it. -/
theorem views_step (hi : Inv s) (h : step env tryCreate s e = some t) {row : UrlRow}
    (hrow : row ∈ (t.links.shards id.range).database.urls) (hid : row.id = id.index) :
    (∃ row' ∈ (s.links.shards id.range).database.urls, row'.id = id.index ∧
      row.totalViews = row'.totalViews + counted id s e) ∨
    row.totalViews = 0 ∧ counted id s e = 0 ∧
      (s.links.shards id.range).database.urlSequence < id.index := by
  have hsame : ∀ {row : UrlRow}, row ∈ (s.links.shards id.range).database.urls → row.id = id.index →
      ∃ row' ∈ (s.links.shards id.range).database.urls, row'.id = id.index ∧
        row.totalViews = row'.totalViews + (0 : ℕ) :=
    fun hrow hid => ⟨_, hrow, hid, by simp⟩
  cases step_cases h with
  | @links e' links hcount hlinks =>
    rcases Owner.step_shard hlinks id.range with heq | ⟨e'', rfl, hshard⟩
    · rw [heq] at hrow
      exact .inl (hsame hrow hid)
    · have hno : ∀ n, e'' ≠ .incrementVisit n := by
        rintro n rfl
        exact hcount trivial
      rcases step_totalViews hshard hno hrow with ⟨row', hrow', hid', hviews⟩ | ⟨hzero, hnew⟩
      · exact .inl ⟨row', hrow', hid'.trans hid, by simp [counted, hviews]⟩
      · exact .inr ⟨hzero, rfl, by omega⟩
  | deleteUser r userId =>
    left
    rw [shards_setDatabase] at hrow
    split_ifs at hrow with hr
    · subst hr
      exact hsame (List.mem_filter.mp hrow).1 hid
    · exact hsame hrow hid
  | @incrementVisit k r shortId id' hk hparse =>
    obtain ⟨id'', hparse', hr⟩ := hi.task hk
    obtain rfl : id' = id'' := Exec.ret.inj (hparse.symm.trans hparse')
    have hcounted : counted id s (.run k) = (decide (id' = id)).toNat := by
      simp only [counted, hk, hparse, Exec.ret.injEq]
    left
    rw [hcounted]
    have hrow : row ∈ ((s.setDatabase r
        ((s.links.shards r).database.incrementVisit id'.index)).links.shards id.range).database.urls :=
      hrow
    rw [shards_setDatabase, hr] at hrow
    split_ifs at hrow with hrange
    · obtain ⟨row', hrow', rfl⟩ := List.mem_map.mp hrow
      rw [← hrange] at hrow'
      have hindex : row'.id = id.index := by
        rw [← hid]
        split_ifs <;> rfl
      refine ⟨row', hrow', hindex, ?_⟩
      by_cases hmatch : row'.id = id'.index
      · have heq : id' = id := ShortId.ext hrange.symm (hmatch.symm.trans hindex)
        rw [if_pos hmatch, decide_eq_true heq]
        rfl
      · have hne : id' ≠ id := by
          rintro rfl
          exact hmatch hindex
        rw [if_neg hmatch, decide_eq_false hne]
        simp
    · have hne : id' ≠ id := by
        rintro rfl
        exact hrange rfl
      rw [decide_eq_false hne]
      exact hsame hrow hid
  | @notifyRedirect k shortId id' hk =>
    have hcounted : counted id s (.run k) = 0 := by simp only [counted, hk]
    rw [hcounted]
    exact .inl (hsame hrow hid)
  | @setString k key data readAt hk =>
    have hcounted : counted id s (.run k) = 0 := by simp only [counted, hk]
    rw [hcounted]
    exact .inl (hsame hrow hid)
  | _ => exact .inl (hsame hrow hid)

/-! ## Links that are not there yet -/

variable {ok : State → Event → Prop}

theorem known_of_held (h : Run (step env tryCreate) ok .init es s) {copy : Copy}
    (hsince : copy.since = 0) (hheld : Held 0 s copy) : Known copy.id s := by
  obtain ⟨es₁, es₂, u, rfl, h₁, h₂, hstored, -⟩ := told_passed h (fun _ _ _ => .inl hsince) hheld
  exact h₂.invariant (known_of_stored (origin_run h₁) hstored) fun _ _ _ hs _ hstep => hs.step hstep

theorem known_of_told (h : Run (step env tryCreate) ok .init es s) {visitor : Visitor}
    (hv : visitor ∈ s.visitors) {destinationUrl : String} (htold : visitor.Told destinationUrl) :
    Known visitor.id s := by
  have hheld : Held 0 s ⟨visitor.id, destinationUrl, 0⟩ := .visitor hv rfl htold (Nat.zero_le _)
  exact known_of_held h rfl hheld

theorem known_of_call (h : Run (step env tryCreate) ok .init es s) {call : Call}
    (hcall : call ∈ s.calls) (hid : parseId call.request.shortId = .ret id) : Known id s := by
  have hheld : Held 0 s ⟨id, call.destinationUrl, 0⟩ := .call hcall hid rfl (Nat.zero_le _)
  exact known_of_held h rfl hheld

theorem known_of_pending (h : Run (step env tryCreate) ok .init es s) {call : Call}
    (hcall : call ∈ s.calls) {task : Task} (htask : task ∈ call.tasks) (hfor : task.IsFor id) :
    Known id s := by
  have hi := inv_run h
  obtain ⟨visitor, hv, hrequest, htasks⟩ := hi.calls call hcall
  obtain rfl : id = visitor.id := hfor.eq (htasks task htask)
  exact known_of_call h hcall (hrequest ▸ hi.visitor hv)

/-- Work items are for links that are or have been there. -/
theorem known_of_task (h : Run (step env tryCreate) ok .init es s) {task : Task}
    (htask : task ∈ s.tasks) (hfor : task.IsFor id) : Known id s := by
  induction h generalizing task with
  | nil => simp [State.init] at htask
  | @snoc es s t e hrun ho hstep ih =>
    refine Known.step ?_ hstep
    cases step_cases hstep with
    | @notify v visitor cachedUrl hv hstage =>
      rcases List.mem_append.mp htask with htask | htask
      · exact ih htask hfor
      · obtain rfl := List.mem_singleton.mp htask
        obtain rfl : visitor.id = id := Exec.ret.inj (((inv_run hrun).visitor hv).symm.trans hfor)
        exact known_of_told hrun (List.mem_of_getElem? hv) (.inl hstage)
    | @enqueue i call task' tasks hi htasks =>
      rcases List.mem_append.mp htask with htask | htask
      · exact ih htask hfor
      · obtain rfl := List.mem_singleton.mp htask
        exact known_of_pending hrun (List.mem_of_getElem? hi) (htasks ▸ List.mem_cons_self) hfor
    | @notifyRedirect k shortId id' hk hid =>
      rcases List.mem_append.mp htask with htask | htask
      · exact ih (List.mem_of_mem_eraseIdx htask) hfor
      · obtain rfl := List.mem_singleton.mp htask
        exact ih (List.mem_of_getElem? hk) hfor.1
    | @retry k shortId id' hk hid =>
      rcases List.mem_append.mp htask with htask | htask
      · exact ih htask hfor
      · obtain rfl := List.mem_singleton.mp htask
        exact ih (List.mem_of_getElem? hk) hfor.1
    | incrementVisit => exact ih (List.mem_of_mem_eraseIdx htask) hfor
    | setString => exact ih (List.mem_of_mem_eraseIdx htask) hfor
    | drop => exact ih (List.mem_of_mem_eraseIdx htask) hfor
    | _ => exact ih htask hfor

theorem Task.Counts.isFor {id' : ShortId} {task : Task} (h : task.Counts id = true)
    (hfor : task.IsFor id') : task.IsFor id := by
  cases task with
  | notifyRedirect shortId =>
    have hid : parseId shortId = .ret id := of_decide_eq_true h
    exact hid
  | incrementVisit shardId shortId =>
    have hid : parseId shortId = .ret id := of_decide_eq_true h
    obtain rfl : id' = id := Exec.ret.inj (hfor.1.symm.trans hid)
    exact hfor
  | setString => cases h

/-- Nobody visits a link that is not there yet. -/
theorem unvisited (h : Run (step env tryCreate) ok .init es s) (hnot : ¬ Known id s) :
    s.uncounted id = 0 ∧ s.answered id = 0 ∧ s.calling id = 0 := by
  have hi := inv_run h
  refine ⟨List.countP_eq_zero.mpr ?_, List.countP_eq_zero.mpr ?_, List.countP_eq_zero.mpr ?_⟩
  · intro task htask hcounts
    rcases List.mem_append.mp htask with htask | htask
    · obtain ⟨id', hfor⟩ := hi.tasks task htask
      exact hnot (known_of_task h htask (Task.Counts.isFor hcounts hfor))
    · obtain ⟨call, hcall, htask⟩ := List.mem_flatMap.mp htask
      obtain ⟨visitor, -, -, htasks⟩ := hi.calls call hcall
      exact hnot (known_of_pending h hcall htask (Task.Counts.isFor hcounts (htasks task htask)))
  · intro visitor hv hanswered
    obtain ⟨hid, hstage⟩ := Bool.and_eq_true_iff.mp hanswered
    obtain rfl := of_decide_eq_true hid
    unfold Stage.IsAnswered at hstage
    split at hstage
    · rename_i destinationUrl heq
      exact hnot (known_of_told h hv (.inr heq))
    · cases hstage
  · intro call hcall hid
    exact hnot (known_of_call h hcall (of_decide_eq_true hid))

/-! ## Main result -/

/-- **Every visit is counted once.** If nothing is lost and nothing is tried again, the views of
    a link and the visits still to be counted are the visitors who have been answered, through
    the cache or by the shard, and those to whom the shard is about to reply. -/
theorem totalViews_lag (id : ShortId) (h : Run (step env tryCreate) Faultless .init es s)
    {row : UrlRow} (hrow : row ∈ (s.links.shards id.range).database.urls) (hid : row.id = id.index) :
    row.totalViews + s.uncounted id = s.answered id + s.calling id := by
  induction h generalizing row with
  | nil => simp [State.init, Links.State.init, Database.init] at hrow
  | @snoc es s t e hrun hok hstep ih =>
    have hi := inv_run hrun
    have hs := busy_run hrun
    have hbalance := balance_step hi hs hok hstep id
    rcases views_step hi hstep hrow hid with ⟨row', hrow', hid', hviews⟩ | ⟨hzero, hnone, hnew⟩
    · have hbefore := ih hrow' hid'
      omega
    · obtain ⟨h1, h2, h3⟩ := unvisited hrun (not_le.mpr hnew)
      omega

/-- The first visitor has been counted, and the second one has not. -/
theorem totalViews_lag_twoVisitors :
    ∃ es s, Run (step .invariantMode Owner.oneUri) Faultless .init es s ∧
      visitedLink ∈ (s.links.shards 1).database.urls ∧ s.answered ⟨1, 1⟩ = 2 ∧
      s.calling ⟨1, 1⟩ = 0 ∧ s.uncounted ⟨1, 1⟩ = 1 := by
  obtain ⟨es, s, h, hlinks, hvisitors, hcalls⟩ := run_twoVisitors
  have hrow : visitedLink ∈ (s.links.shards 1).database.urls := by simp [hlinks]
  have hfaultless : Run (step .invariantMode Owner.oneUri) Faultless .init es s :=
    h.mono fun _ _ hcalm => hcalm.2.2
  have hanswered : s.answered ⟨1, 1⟩ = 2 := by
    rw [State.answered, hvisitors]
    rfl
  have hcalling : s.calling ⟨1, 1⟩ = 0 := by
    rw [State.calling, hcalls]
    rfl
  have hcounted : (1 : ℤ) + s.uncounted ⟨1, 1⟩ = s.answered ⟨1, 1⟩ + s.calling ⟨1, 1⟩ :=
    totalViews_lag ⟨1, 1⟩ hfaultless hrow rfl
  exact ⟨es, s, hfaultless, hrow, hanswered, hcalling, by omega⟩

end Shortener.Redirects
