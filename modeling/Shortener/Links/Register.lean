import Shortener.Links.Database

/-!
# Registering a domain

Concurrent calls of `DomainRepository.GetOrAdd`
(`Shortener.GrpcBackend/Repositories/DomainRepository.cs`, lines 28–48) on the table `Domain` of
a shard (`manifests/shortener-backend/templates/initdb-configmap.yaml`, lines 20–25). Each is
one statement in a transaction of its own under READ COMMITTED. Its snapshot, which
`NOT EXISTS` and the last `SELECT` read, holds the rows that are committed when it starts. Its
`INSERT` draws an id and then sees to it that `Name` is unique: it waits for a transaction
that has inserted the name, and fails if the name has been committed.

* `getOrAdd_alone`: a call that nothing overlaps does what `Database.getOrAdd` says.
* `getOrAdd_safe_iff`: the calls are safe exactly if a call for a new domain begins only while
  no other call for the domain is in progress.
* `overlap_fails`: nothing keeps two calls for a new domain from overlapping.
-/

namespace Shortener.Links.Register

open Shortener.Common Shortener.DotNet

/-! ## State and steps -/

/-- How far the statement of a call has come. -/
inductive Phase
  /-- The statement has taken its snapshot. -/
  | started (snapshot : List DomainRow)
  /-- `NOT EXISTS` was true and the `INSERT` has drawn its id. -/
  | inserting (id : ℤ)
  /-- The row is inserted and not yet committed. -/
  | inserted (row : DomainRow)
  | returned (row : DomainRow)
  /-- The `INSERT` met a row of the same name. -/
  | failed
  /-- The caller gave up, or the connection was lost. -/
  | cancelled
  deriving DecidableEq, Repr

/-- A call of `GetOrAdd`. -/
structure Call where
  argument : String
  phase : Phase
  deriving DecidableEq, Repr

/-- The table, and the calls. -/
structure State where
  database : Database
  calls : List Call
  deriving DecidableEq, Repr

/-- The table is empty. -/
def State.init : State := ⟨.init, []⟩

/-- What a call does next. -/
inductive Action
  /-- `WHERE NOT EXISTS`; if there is a row, the `SELECT` returns it. -/
  | evaluate
  /-- The check of the constraint `UNIQUE`. -/
  | insert
  /-- The end of the transaction; the `SELECT` returns the new row. -/
  | commit
  | cancel
  deriving DecidableEq, Repr

/-- What can happen next. -/
inductive Event
  /-- A call of `GetOrAdd` starts its statement. -/
  | getOrAdd (argument : String)
  /-- Call `i` goes on. -/
  | act (i : ℕ) (action : Action)
  deriving DecidableEq, Repr

section

variable (env : Globalization)

/-- `name.ToLowerInvariant()`. -/
def Call.name (call : Call) : String := env.toLowerInvariant call.argument

/-- The rows that have been inserted and not yet committed. -/
def State.uncommitted (s : State) : List DomainRow :=
  s.calls.filterMap fun call =>
    match call.phase with
    | .inserted row => some row
    | _ => none

/-- The tables and the phase of the call after its next action. -/
def Call.act (s : State) (call : Call) (action : Action) : Option (Database × Phase) :=
  match call.phase, action with
  | .started snapshot, .evaluate =>
    match snapshot.find? fun row => row.name = call.name env with
    | some row => some (s.database, .returned row)
    | none =>
      let id := s.database.domainSequence + 1
      some ({ s.database with domainSequence := id }, .inserting id)
  | .inserting id, .insert =>
    if ∃ row ∈ s.uncommitted, row.name = call.name env then none
    else if ∃ row ∈ s.database.domains, row.name = call.name env then some (s.database, .failed)
    else some (s.database, .inserted ⟨id, call.name env⟩)
  | .inserted row, .commit =>
    some ({ s.database with domains := s.database.domains ++ [row] }, .returned row)
  | .started _, .cancel => some (s.database, .cancelled)
  | .inserting _, .cancel => some (s.database, .cancelled)
  | .inserted _, .cancel => some (s.database, .cancelled)
  | _, _ => none

/-- A step of a call. -/
def step (s : State) : Event → Option State
  | .getOrAdd argument =>
    some { s with calls := s.calls ++ [⟨argument, .started s.database.domains⟩] }
  | .act i action =>
    match s.calls[i]? with
    | some call =>
      (call.act env s action).map fun (database, phase) =>
        { database := database, calls := s.calls.set i { call with phase := phase } }
    | none => none

/-! ## Safety -/

/-- The statement has not ended. -/
def Phase.InProgress : Phase → Prop
  | .started _ => True
  | .inserting _ => True
  | .inserted _ => True
  | _ => False

instance (phase : Phase) : Decidable phase.InProgress :=
  match phase with
  | .started _ => isTrue trivial
  | .inserting _ => isTrue trivial
  | .inserted _ => isTrue trivial
  | .returned _ => isFalse id
  | .failed => isFalse id
  | .cancelled => isFalse id

/-- What the callers of `GetOrAdd` rely on. -/
structure Safe (s : State) : Prop where
  /-- No call fails. -/
  notFailed : ∀ call ∈ s.calls, call.phase ≠ .failed
  /-- A call returns a row with the lower-cased name. -/
  name : ∀ call ∈ s.calls, ∀ row, call.phase = .returned row →
    row.name = env.toLowerInvariant call.argument
  /-- Calls for names that are equal ignoring case return the same row. -/
  same : ∀ call ∈ s.calls, ∀ call' ∈ s.calls, ∀ row row', call.phase = .returned row →
    call'.phase = .returned row' →
    env.toLowerInvariant call.argument = env.toLowerInvariant call'.argument → row = row'
  /-- No call has to wait for another. -/
  goesOn : ∀ i call, s.calls[i]? = some call → call.phase.InProgress →
    ∃ action, action ≠ .cancel ∧ step env s (.act i action) ≠ none

/-- Every call has got its answer. -/
def Answered (s : State) : Prop :=
  ∀ call ∈ s.calls, (∃ row, call.phase = .returned row) ∨ call.phase = .failed

/-- A call for a domain that is not in the table begins while no other call for the domain,
    ignoring case, is in progress. -/
def FirstAlone (s : State) : Event → Prop
  | .getOrAdd argument =>
    (∃ row ∈ s.database.domains, row.name = env.toLowerInvariant argument) ∨
      ∀ call ∈ s.calls, call.phase.InProgress →
        env.toLowerInvariant call.argument ≠ env.toLowerInvariant argument
  | .act _ _ => True

instance (s : State) (e : Event) : Decidable (FirstAlone env s e) :=
  match e with
  | .getOrAdd _ => inferInstanceAs (Decidable (_ ∨ _))
  | .act _ _ => isTrue trivial

end

variable {env : Globalization} {s t : State} {e : Event} {es : List Event} {i : ℕ} {call : Call}
  {action : Action} {database : Database} {phase : Phase}

/-! ## What an action does -/

/-- The ways in which a call goes on. -/
inductive Acts (env : Globalization) (s : State) (call : Call) : Database → Phase → Prop
  | finds {snapshot : List DomainRow} {row : DomainRow} (hphase : call.phase = .started snapshot)
      (hrow : row ∈ snapshot) (hname : row.name = call.name env) :
      Acts env s call s.database (.returned row)
  | draws {snapshot : List DomainRow} (hphase : call.phase = .started snapshot)
      (hnew : ∀ row ∈ snapshot, row.name ≠ call.name env) :
      Acts env s call { s.database with domainSequence := s.database.domainSequence + 1 }
        (.inserting (s.database.domainSequence + 1))
  | fails {id : ℤ} (hphase : call.phase = .inserting id)
      (hrow : ∃ row ∈ s.database.domains, row.name = call.name env) :
      Acts env s call s.database .failed
  | inserts {id : ℤ} (hphase : call.phase = .inserting id)
      (huncommitted : ∀ row ∈ s.uncommitted, row.name ≠ call.name env)
      (hnew : ∀ row ∈ s.database.domains, row.name ≠ call.name env) :
      Acts env s call s.database (.inserted ⟨id, call.name env⟩)
  | commits {row : DomainRow} (hphase : call.phase = .inserted row) :
      Acts env s call { s.database with domains := s.database.domains ++ [row] } (.returned row)
  | cancels (hphase : call.phase.InProgress) : Acts env s call s.database .cancelled

theorem acts_of_act (h : call.act env s action = some (database, phase)) :
    Acts env s call database phase := by
  unfold Call.act at h
  split at h
  · rename_i snapshot hphase
    split at h
    · rename_i row hfind
      obtain ⟨rfl, rfl⟩ := Prod.mk.inj (Option.some.inj h)
      exact .finds hphase (List.mem_of_find?_eq_some hfind) (by simpa using List.find?_some hfind)
    · rename_i hfind
      obtain ⟨rfl, rfl⟩ := Prod.mk.inj (Option.some.inj h)
      exact .draws hphase (by simpa using List.find?_eq_none.mp hfind)
  · rename_i id hphase
    split_ifs at h with huncommitted hrow
    · obtain ⟨rfl, rfl⟩ := Prod.mk.inj (Option.some.inj h)
      exact .fails hphase hrow
    · obtain ⟨rfl, rfl⟩ := Prod.mk.inj (Option.some.inj h)
      exact .inserts hphase (by simpa using huncommitted) (by simpa using hrow)
  · rename_i row hphase
    obtain ⟨rfl, rfl⟩ := Prod.mk.inj (Option.some.inj h)
    exact .commits hphase
  · rename_i snapshot hphase
    obtain ⟨rfl, rfl⟩ := Prod.mk.inj (Option.some.inj h)
    exact .cancels (by rw [hphase]; trivial)
  · rename_i id hphase
    obtain ⟨rfl, rfl⟩ := Prod.mk.inj (Option.some.inj h)
    exact .cancels (by rw [hphase]; trivial)
  · rename_i row hphase
    obtain ⟨rfl, rfl⟩ := Prod.mk.inj (Option.some.inj h)
    exact .cancels (by rw [hphase]; trivial)
  · cases h

/-- A step begins a call, or one call goes on. -/
theorem step_cases (h : step env s e = some t) :
    (∃ argument, e = .getOrAdd argument ∧
      t = { s with calls := s.calls ++ [⟨argument, .started s.database.domains⟩] }) ∨
    ∃ i action call database phase, e = .act i action ∧ s.calls[i]? = some call ∧
      Acts env s call database phase ∧
      t = { database := database, calls := s.calls.set i { call with phase := phase } } := by
  cases e with
  | getOrAdd argument => exact .inl ⟨argument, rfl, (Option.some.inj h).symm⟩
  | act i action =>
    simp only [step] at h
    split at h
    · rename_i call hi
      obtain ⟨⟨database, phase⟩, hact, rfl⟩ := Option.map_eq_some_iff.mp h
      exact .inr ⟨i, action, call, database, phase, rfl, hi, acts_of_act hact, rfl⟩
    · cases h

/-- A call in progress goes on. -/
theorem Acts.inProgress (h : Acts env s call database phase) : call.phase.InProgress := by
  cases h with
  | finds hphase => rw [hphase]; trivial
  | draws hphase => rw [hphase]; trivial
  | fails hphase => rw [hphase]; trivial
  | inserts hphase => rw [hphase]; trivial
  | commits hphase => rw [hphase]; trivial
  | cancels hphase => exact hphase

/-- The only row that appears in the table is the one that is committed. -/
theorem Acts.domains (h : Acts env s call database phase) :
    database.domains = s.database.domains ∨ ∃ row, call.phase = .inserted row ∧
      phase = .returned row ∧ database.domains = s.database.domains ++ [row] := by
  cases h with
  | finds => exact .inl rfl
  | draws => exact .inl rfl
  | fails => exact .inl rfl
  | inserts => exact .inl rfl
  | commits hphase => exact .inr ⟨_, hphase, rfl, rfl⟩
  | cancels => exact .inl rfl

theorem Acts.mem_domains (h : Acts env s call database phase) {row : DomainRow}
    (hrow : row ∈ s.database.domains) : row ∈ database.domains := by
  rcases h.domains with heq | ⟨_, -, -, heq⟩
  · rwa [heq]
  · rw [heq]
    exact List.mem_append_left _ hrow

/-- The calls after call `i` has gone on. -/
theorem getElem?_set_cases {calls : List Call} {j : ℕ} {call call' : Call}
    (h : (calls.set i call)[j]? = some call') :
    (j = i ∧ call' = call) ∨ (j ≠ i ∧ calls[j]? = some call') := by
  by_cases hij : i = j
  · subst hij
    rw [List.getElem?_set_self'] at h
    obtain ⟨_, -, rfl⟩ := Option.map_eq_some_iff.mp h
    exact .inl ⟨rfl, rfl⟩
  · rw [List.getElem?_set_ne hij] at h
    exact .inr ⟨Ne.symm hij, h⟩

theorem getElem?_append_of_some {calls : List Call} {j : ℕ} {call call' : Call}
    (h : calls[j]? = some call') : (calls ++ [call])[j]? = some call' := by
  rw [List.getElem?_append_left (List.getElem?_eq_some_iff.mp h).1]
  exact h

/-- The calls after another one has begun. -/
theorem getElem?_append_cases {calls : List Call} {j : ℕ} {call call' : Call}
    (h : (calls ++ [call])[j]? = some call') :
    calls[j]? = some call' ∨ (j = calls.length ∧ call' = call) := by
  by_cases hj : j < calls.length
  · rw [List.getElem?_append_left hj] at h
    exact .inl h
  · rw [List.getElem?_append_right (by omega), List.getElem?_singleton] at h
    split_ifs at h with hzero
    exact .inr ⟨by omega, (Option.some.inj h).symm⟩

/-! ## A call alone -/

/-- The call that has begun last goes on. -/
theorem step_last {database' : Database} {calls : List Call}
    (h : call.act env ⟨database, calls ++ [call]⟩ action = some (database', phase)) :
    step env ⟨database, calls ++ [call]⟩ (.act calls.length action) =
      some ⟨database', calls ++ [{ call with phase := phase }]⟩ := by
  simp [step, h]

theorem uncommitted_append (database : Database) (hphase : ∀ row, call.phase ≠ .inserted row) :
    State.uncommitted ⟨database, s.calls ++ [call]⟩ = s.uncommitted := by
  unfold State.uncommitted
  rw [List.filterMap_append, List.append_right_eq_self, List.filterMap_eq_nil_iff]
  intro call' hcall'
  obtain rfl := List.mem_singleton.mp hcall'
  split
  · next row hrow => exact absurd hrow (hphase row)
  · rfl

/-- A call that nothing overlaps does what `Database.getOrAdd` says. -/
theorem getOrAdd_alone (s : State) (argument : String)
    (h : ∀ row ∈ s.uncommitted, row.name ≠ env.toLowerInvariant argument) :
    ∃ es, Run (step env) always s es
      ⟨(s.database.getOrAdd env argument).1,
        s.calls ++ [⟨argument, .returned (s.database.getOrAdd env argument).2⟩]⟩ := by
  have hbegin : Run (step env) always s [.getOrAdd argument]
      ⟨s.database, s.calls ++ [⟨argument, .started s.database.domains⟩]⟩ := .single trivial rfl
  unfold Database.getOrAdd
  dsimp only
  split
  · rename_i row hfind
    have hevaluate : Call.act env ⟨s.database, s.calls ++ [⟨argument, .started s.database.domains⟩]⟩
        ⟨argument, .started s.database.domains⟩ .evaluate = some (s.database, .returned row) := by
      unfold Call.act Call.name
      dsimp only
      rw [hfind]
    exact ⟨_, hbegin.snoc trivial (step_last hevaluate)⟩
  · rename_i hfind
    have hnew : ¬ ∃ row ∈ s.database.domains, row.name = env.toLowerInvariant argument := by
      simpa using List.find?_eq_none.mp hfind
    let id := s.database.domainSequence + 1
    let drawn : Database := { s.database with domainSequence := id }
    have hevaluate : Call.act env ⟨s.database, s.calls ++ [⟨argument, .started s.database.domains⟩]⟩
        ⟨argument, .started s.database.domains⟩ .evaluate = some (drawn, .inserting id) := by
      unfold Call.act Call.name
      dsimp only
      rw [hfind]
    have hinsert : Call.act env ⟨drawn, s.calls ++ [⟨argument, .inserting id⟩]⟩
        ⟨argument, .inserting id⟩ .insert =
          some (drawn, .inserted ⟨id, env.toLowerInvariant argument⟩) := by
      have huncommitted :
          ¬ ∃ row ∈ State.uncommitted ⟨drawn, s.calls ++ [⟨argument, .inserting id⟩]⟩,
            row.name = env.toLowerInvariant argument := by
        rw [uncommitted_append drawn (by simp)]
        simpa using h
      unfold Call.act Call.name
      dsimp only
      rw [if_neg huncommitted, if_neg hnew]
    exact ⟨_, ((hbegin.snoc trivial (step_last hevaluate)).snoc trivial (step_last hinsert)).snoc
      trivial (e := .act s.calls.length .commit) (step_last rfl)⟩

/-! ## The rows that are returned -/

/-- What is known of a call. -/
def Call.Tracked (env : Globalization) (database : Database) (call : Call) : Prop :=
  match call.phase with
  | .started snapshot => ∀ row ∈ snapshot, row ∈ database.domains
  | .inserted row => row.name = call.name env ∧ ∀ row' ∈ database.domains, row'.name ≠ row.name
  | .returned row => row ∈ database.domains ∧ row.name = call.name env
  | _ => True

/-- Names are unique, and what the calls have inserted or returned agrees with the table. -/
structure Inv (env : Globalization) (s : State) : Prop where
  names : (s.database.domains.map DomainRow.name).Nodup
  calls : ∀ (i : ℕ) (call : Call), s.calls[i]? = some call → call.Tracked env s.database
  /-- Two transactions never have the same name inserted. -/
  inserted : ∀ (i j : ℕ) (call call' : Call) (row row' : DomainRow), s.calls[i]? = some call →
    s.calls[j]? = some call' → call.phase = .inserted row → call'.phase = .inserted row' →
    row.name = row'.name → i = j

theorem mem_uncommitted {row : DomainRow} (hi : s.calls[i]? = some call)
    (hphase : call.phase = .inserted row) : row ∈ s.uncommitted :=
  List.mem_filterMap.mpr ⟨call, List.mem_of_getElem? hi, by rw [hphase]⟩

theorem of_mem_uncommitted {row : DomainRow} (h : row ∈ s.uncommitted) :
    ∃ (i : ℕ) (call : Call), s.calls[i]? = some call ∧ call.phase = .inserted row := by
  obtain ⟨call, hcall, hrow⟩ := List.mem_filterMap.mp h
  obtain ⟨i, hi⟩ := List.mem_iff_getElem?.mp hcall
  split at hrow
  · next hphase =>
    obtain rfl := Option.some.inj hrow
    exact ⟨i, call, hi, hphase⟩
  · cases hrow

/-- What is known of a call that has just gone on. -/
theorem Acts.tracked (h : Acts env s call database phase) (hc : call.Tracked env s.database) :
    { call with phase := phase }.Tracked env database := by
  unfold Call.Tracked at hc ⊢
  cases h with
  | finds hphase hrow hname =>
    rw [hphase] at hc
    exact ⟨hc _ hrow, hname⟩
  | draws => trivial
  | fails => trivial
  | inserts hphase huncommitted hnew => exact ⟨rfl, hnew⟩
  | commits hphase =>
    rw [hphase] at hc
    exact ⟨List.mem_append_right _ (List.mem_singleton_self _), hc.1⟩
  | cancels => trivial

/-- What is known of the other calls. -/
theorem Acts.tracked_of_ne (h : Acts env s call database phase) (hinv : Inv env s)
    (hi : s.calls[i]? = some call) {j : ℕ} {call' : Call} (hij : j ≠ i)
    (hj : s.calls[j]? = some call') : call'.Tracked env database := by
  have hc := hinv.calls j call' hj
  unfold Call.Tracked at hc ⊢
  split
  · next snapshot hphase' =>
    rw [hphase'] at hc
    exact fun row hrow => h.mem_domains (hc row hrow)
  · next row hphase' =>
    rw [hphase'] at hc
    refine ⟨hc.1, ?_⟩
    intro row' hrow'
    rcases h.domains with heq | ⟨new, hphase, -, heq⟩
    · exact hc.2 row' (heq ▸ hrow')
    · rw [heq] at hrow'
      rcases List.mem_append.mp hrow' with hrow' | hrow'
      · exact hc.2 row' hrow'
      · -- the row that is committed has another name
        obtain rfl := List.mem_singleton.mp hrow'
        intro hname
        exact hij (hinv.inserted j i call' call row row' hj hi hphase' hphase hname.symm)
  · next row hphase' =>
    rw [hphase'] at hc
    exact ⟨h.mem_domains hc.1, hc.2⟩
  · trivial

/-- Two calls never have the same name inserted. -/
theorem Acts.inserted (h : Acts env s call database phase) {j : ℕ} {call' : Call}
    {row row' : DomainRow} (hphase : phase = .inserted row)
    (hj : s.calls[j]? = some call') (hphase' : call'.phase = .inserted row') :
    row.name ≠ row'.name := by
  cases h with
  | inserts _ huncommitted =>
    obtain rfl := Phase.inserted.inj hphase
    exact (huncommitted row' (mem_uncommitted hj hphase')).symm
  | finds => cases hphase
  | draws => cases hphase
  | fails => cases hphase
  | commits => cases hphase
  | cancels => cases hphase

theorem Acts.names (h : Acts env s call database phase) (hinv : Inv env s)
    (hc : call.Tracked env s.database) : (database.domains.map DomainRow.name).Nodup := by
  rcases h.domains with heq | ⟨row, hphase, -, heq⟩
  · rw [heq]
    exact hinv.names
  · rw [Call.Tracked, hphase] at hc
    rw [heq, List.map_append, List.map_singleton]
    apply List.Nodup.append hinv.names (List.nodup_singleton _)
    rw [List.disjoint_singleton]
    intro hmem
    obtain ⟨row', hrow', hname⟩ := List.mem_map.mp hmem
    exact hc.2 row' hrow' hname

theorem inv_step (hinv : Inv env s) (h : step env s e = some t) : Inv env t := by
  obtain ⟨argument, -, rfl⟩ | ⟨k, action, call, database, phase, -, hk, hact, rfl⟩ := step_cases h
  · refine ⟨hinv.names, ?_, ?_⟩
    · intro i call hi
      rcases getElem?_append_cases hi with hi | ⟨-, rfl⟩
      · exact hinv.calls i call hi
      · exact fun _ hrow => hrow
    · intro i j call call' row row' hi hj hphase hphase' hname
      rcases getElem?_append_cases hi with hi | ⟨-, rfl⟩
      · rcases getElem?_append_cases hj with hj | ⟨-, rfl⟩
        · exact hinv.inserted i j call call' row row' hi hj hphase hphase' hname
        · cases hphase'
      · cases hphase
  · have hc := hinv.calls k call hk
    refine ⟨hact.names hinv hc, ?_, ?_⟩
    · intro i call' hi
      rcases getElem?_set_cases hi with ⟨rfl, rfl⟩ | ⟨hik, hi⟩
      · exact hact.tracked hc
      · exact hact.tracked_of_ne hinv hk hik hi
    · intro i j call₁ call₂ row row' hi hj hphase hphase' hname
      rcases getElem?_set_cases hi with ⟨rfl, rfl⟩ | ⟨-, hold⟩
      · rcases getElem?_set_cases hj with ⟨rfl, rfl⟩ | ⟨-, hj⟩
        · rfl
        · exact absurd hname (hact.inserted hphase hj hphase')
      · rcases getElem?_set_cases hj with ⟨rfl, rfl⟩ | ⟨-, hj⟩
        · exact absurd hname.symm (hact.inserted hphase' hold hphase)
        · exact hinv.inserted i j call₁ call₂ row row' hold hj hphase hphase' hname

theorem inv_run {ok : State → Event → Prop} (h : Run (step env) ok .init es t) : Inv env t := by
  refine h.invariant ⟨List.nodup_nil, ?_, ?_⟩ fun s e t hinv _ hs => inv_step hinv hs
  · intro i call hi
    cases hi
  · intro i j call call' row row' hi
    cases hi

/-- A call returns the row of its name, and there is only one. -/
theorem Inv.returned_eq (hinv : Inv env s) {call' : Call} {row row' : DomainRow}
    (hcall : call ∈ s.calls) (hcall' : call' ∈ s.calls) (hphase : call.phase = .returned row)
    (hphase' : call'.phase = .returned row') (hname : call.name env = call'.name env) :
    row = row' := by
  obtain ⟨i, hi⟩ := List.mem_iff_getElem?.mp hcall
  obtain ⟨j, hj⟩ := List.mem_iff_getElem?.mp hcall'
  have hrow := hinv.calls i call hi
  have hrow' := hinv.calls j call' hj
  rw [Call.Tracked, hphase] at hrow
  rw [Call.Tracked, hphase'] at hrow'
  exact List.inj_on_of_nodup_map hinv.names hrow.1 hrow'.1
    ((hrow.2.trans hname).trans hrow'.2.symm)

/-! ## Calls that find nothing -/

/-- The call is in progress and its snapshot has no row of its name. -/
def Call.Missing (env : Globalization) (call : Call) : Prop :=
  match call.phase with
  | .started snapshot => ∀ row ∈ snapshot, row.name ≠ call.name env
  | .inserting _ => True
  | .inserted _ => True
  | _ => False

/-- A call that finds nothing does not begin to. -/
theorem Acts.missing_before (h : Acts env s call database phase)
    (hmissing : { call with phase := phase }.Missing env) :
    call.Missing env ∧ database.domains = s.database.domains := by
  unfold Call.Missing at hmissing ⊢
  cases h with
  | finds => cases hmissing
  | draws hphase hnew => exact ⟨by rwa [hphase], rfl⟩
  | fails => cases hmissing
  | inserts hphase => exact ⟨by rw [hphase]; trivial, rfl⟩
  | commits => cases hmissing
  | cancels => cases hmissing

/-- A call fails that found nothing, although its name is in the table. -/
theorem Acts.of_failed (h : Acts env s call database .failed) :
    call.Missing env ∧ ∃ row ∈ s.database.domains, row.name = call.name env := by
  unfold Call.Missing
  cases h with
  | fails hphase hrow => exact ⟨by rw [hphase]; trivial, hrow⟩

/-- What becomes of a call that finds nothing. -/
theorem Acts.missing_after (h : Acts env s call database phase) (hmissing : call.Missing env)
    (hc : call.Tracked env s.database) :
    { call with phase := phase }.Missing env ∨ (phase = .failed ∨ phase = .cancelled) ∨
      (∃ row ∈ database.domains, row.name = call.name env) ∧
        ∀ row ∈ s.database.domains, row.name ≠ call.name env := by
  unfold Call.Missing at hmissing ⊢
  cases h with
  | finds hphase hrow hname =>
    rw [hphase] at hmissing
    exact absurd hname (hmissing _ hrow)
  | draws => exact .inl trivial
  | fails => exact .inr (.inl (.inl rfl))
  | inserts => exact .inl trivial
  | commits hphase =>
    rw [Call.Tracked, hphase] at hc
    refine .inr (.inr ⟨⟨_, List.mem_append_right _ (List.mem_singleton_self _), hc.1⟩, ?_⟩)
    rw [← hc.1]
    exact hc.2
  | cancels => exact .inr (.inl (.inr rfl))

/-! ## Calls that do not overlap -/

/-- A call that finds nothing is the only one for a domain that is not in the table. -/
structure Lone (env : Globalization) (s : State) : Prop where
  notFailed : ∀ call ∈ s.calls, call.phase ≠ .failed
  absent : ∀ call ∈ s.calls, call.Missing env → ∀ row ∈ s.database.domains,
    row.name ≠ call.name env
  alone : ∀ (i j : ℕ) (call call' : Call), s.calls[i]? = some call → s.calls[j]? = some call' →
    call.Missing env → call'.Missing env → call.name env = call'.name env → i = j

theorem Call.Missing.inProgress (h : call.Missing env) : call.phase.InProgress := by
  unfold Call.Missing at h
  unfold Phase.InProgress
  split at h
  · trivial
  · trivial
  · trivial
  · cases h

/-- A call begins that finds its name, or while no other call in progress is for it. -/
theorem Lone.getOrAdd (hs : Lone env s) {argument : String}
    (hok : FirstAlone env s (.getOrAdd argument)) :
    Lone env { s with calls := s.calls ++ [⟨argument, .started s.database.domains⟩] } := by
  have hnew : ∀ call ∈ s.calls, call.Missing env →
      (⟨argument, .started s.database.domains⟩ : Call).Missing env →
      call.name env ≠ env.toLowerInvariant argument := by
    intro call hcall hmissing hmissing'
    rcases hok with ⟨row, hrow, hname⟩ | hother
    · exact absurd hname (hmissing' row hrow)
    · exact hother call hcall hmissing.inProgress
  refine ⟨?_, ?_, ?_⟩
  · intro call hcall
    rcases List.mem_append.mp hcall with hcall | hcall
    · exact hs.notFailed call hcall
    · obtain rfl := List.mem_singleton.mp hcall
      simp
  · intro call hcall hmissing
    rcases List.mem_append.mp hcall with hcall | hcall
    · exact hs.absent call hcall hmissing
    · obtain rfl := List.mem_singleton.mp hcall
      exact hmissing
  · intro i j call call' hi hj hmissing hmissing' hname
    rcases getElem?_append_cases hi with hi | ⟨hlast, rfl⟩
    · rcases getElem?_append_cases hj with hj | ⟨-, rfl⟩
      · exact hs.alone i j call call' hi hj hmissing hmissing' hname
      · exact absurd hname (hnew call (List.mem_of_getElem? hi) hmissing hmissing')
    · rcases getElem?_append_cases hj with hj | ⟨hlast', rfl⟩
      · exact absurd hname.symm (hnew call' (List.mem_of_getElem? hj) hmissing' hmissing)
      · rw [hlast, hlast']

/-- A row that is committed has not the name of another call that finds nothing. -/
theorem Acts.absent (hact : Acts env s call database phase) (hinv : Inv env s) (hs : Lone env s)
    {k : ℕ} {call' : Call} (hk : s.calls[k]? = some call) (hi : s.calls[i]? = some call')
    (hik : i ≠ k) (hmissing : call'.Missing env) :
    ∀ row ∈ database.domains, row.name ≠ call'.name env := by
  have hold := hs.absent call' (List.mem_of_getElem? hi) hmissing
  rcases hact.domains with heq | ⟨new, hphase, -, heq⟩
  · rwa [heq]
  · have hc := hinv.calls k call hk
    rw [Call.Tracked, hphase] at hc
    have hmissing' : call.Missing env := by rw [Call.Missing, hphase]; trivial
    rw [heq]
    intro row hrow
    rcases List.mem_append.mp hrow with hrow | hrow
    · exact hold row hrow
    · obtain rfl := List.mem_singleton.mp hrow
      intro hname
      exact hik (hs.alone i k call' call hi hk hmissing hmissing' (hname.symm.trans hc.1))

/-- A call goes on. -/
theorem Acts.lone (hact : Acts env s call database phase) (hinv : Inv env s) (hs : Lone env s)
    {k : ℕ} (hk : s.calls[k]? = some call) :
    Lone env { database := database, calls := s.calls.set k { call with phase := phase } } := by
  have hcall := List.mem_of_getElem? hk
  refine ⟨?_, ?_, ?_⟩
  · intro call' hcall'
    rcases List.mem_or_eq_of_mem_set hcall' with hcall' | rfl
    · exact hs.notFailed call' hcall'
    · rintro rfl
      obtain ⟨hmissing, row, hrow, hname⟩ := hact.of_failed
      exact hs.absent call hcall hmissing row hrow hname
  · intro call' hcall' hmissing
    obtain ⟨i, hi⟩ := List.mem_iff_getElem?.mp hcall'
    rcases getElem?_set_cases hi with ⟨rfl, rfl⟩ | ⟨hik, hi⟩
    · obtain ⟨hbefore, hdomains⟩ := hact.missing_before hmissing
      rw [hdomains]
      exact hs.absent call hcall hbefore
    · exact hact.absent hinv hs hk hi hik hmissing
  · intro i j call₁ call₂ hi hj hmissing hmissing' hname
    rcases getElem?_set_cases hi with ⟨rfl, rfl⟩ | ⟨-, hold⟩
    · rcases getElem?_set_cases hj with ⟨rfl, rfl⟩ | ⟨-, hold'⟩
      · rfl
      · exact hs.alone i j call call₂ hk hold' (hact.missing_before hmissing).1 hmissing' hname
    · rcases getElem?_set_cases hj with ⟨rfl, rfl⟩ | ⟨-, hold'⟩
      · exact hs.alone i j call₁ call hold hk hmissing (hact.missing_before hmissing').1 hname
      · exact hs.alone i j call₁ call₂ hold hold' hmissing hmissing' hname

theorem lone_step (hinv : Inv env s) (hs : Lone env s) (hok : FirstAlone env s e)
    (h : step env s e = some t) : Lone env t := by
  obtain ⟨argument, rfl, rfl⟩ | ⟨k, action, call, database, phase, -, hk, hact, rfl⟩ :=
    step_cases h
  · exact hs.getOrAdd hok
  · exact hact.lone hinv hs hk

theorem lone_run (h : Run (step env) (FirstAlone env) .init es t) : Lone env t := by
  induction h with
  | nil =>
    refine ⟨?_, ?_, ?_⟩
    · intro call hcall
      cases hcall
    · intro call hcall
      cases hcall
    · intro i j call call' hi
      cases hi
  | snoc hr hok hs ih => exact lone_step (inv_run hr) ih hok hs

/-- No call waits for another, since none has inserted the name it waits for. -/
theorem Lone.goesOn (hinv : Inv env s) (hs : Lone env s) (hi : s.calls[i]? = some call)
    (hprogress : call.phase.InProgress) :
    ∃ action, action ≠ .cancel ∧ step env s (.act i action) ≠ none := by
  have hstep : ∀ action, call.act env s action ≠ none → step env s (.act i action) ≠ none := by
    intro action hact
    simpa [step, hi] using hact
  unfold Phase.InProgress at hprogress
  split at hprogress
  · rename_i snapshot hphase
    refine ⟨.evaluate, by simp, hstep _ ?_⟩
    simp only [Call.act, hphase]
    split <;> simp
  · rename_i id hphase
    refine ⟨.insert, by simp, hstep _ ?_⟩
    have huncommitted : ¬ ∃ row ∈ s.uncommitted, row.name = call.name env := by
      intro h
      obtain ⟨row, hrow, hname⟩ := h
      obtain ⟨j, call', hj, hphase'⟩ := of_mem_uncommitted hrow
      have hc := hinv.calls j call' hj
      rw [Call.Tracked, hphase'] at hc
      obtain rfl := hs.alone i j call call' hi hj (by rw [Call.Missing, hphase]; trivial)
        (by rw [Call.Missing, hphase']; trivial) (hname.symm.trans hc.1)
      rw [hi] at hj
      obtain rfl := Option.some.inj hj
      rw [hphase] at hphase'
      cases hphase'
    simp only [Call.act, hphase, if_neg huncommitted]
    split <;> simp
  · rename_i row hphase
    refine ⟨.commit, by simp, hstep _ ?_⟩
    simp [Call.act, hphase]
  · cases hprogress

theorem Lone.safe (hinv : Inv env s) (hs : Lone env s) : Safe env s := by
  refine ⟨hs.notFailed, ?_, ?_, fun i call hi => hs.goesOn hinv hi⟩
  · intro call hcall row hphase
    obtain ⟨i, hi⟩ := List.mem_iff_getElem?.mp hcall
    have hc := hinv.calls i call hi
    rw [Call.Tracked, hphase] at hc
    exact hc.2
  · intro call hcall call' hcall' row row' hphase hphase' hname
    exact hinv.returned_eq hcall hcall' hphase hphase' hname

/-! ## Calls that overlap -/

/-- A call has been lost, or one will be before all have their answers. -/
inductive Doomed (env : Globalization) (s : State) : Prop
  | lost {call : Call} (hcall : call ∈ s.calls)
      (hphase : call.phase = .failed ∨ call.phase = .cancelled)
  | late {call : Call} (hcall : call ∈ s.calls) (hmissing : call.Missing env)
      (hrow : ∃ row ∈ s.database.domains, row.name = call.name env)
  | rivals {i j : ℕ} {call call' : Call} (hij : i ≠ j) (hi : s.calls[i]? = some call)
      (hj : s.calls[j]? = some call') (hmissing : call.Missing env)
      (hmissing' : call'.Missing env) (hname : call.name env = call'.name env)

theorem not_safe_of_doomed (hs : Doomed env s) (hanswered : Answered s) : ¬ Safe env s := by
  have hend : ∀ call ∈ s.calls, ¬ call.Missing env := by
    intro call hcall hmissing
    rcases hanswered call hcall with ⟨row, hphase⟩ | hphase
    · rw [Call.Missing, hphase] at hmissing
      exact hmissing
    · rw [Call.Missing, hphase] at hmissing
      exact hmissing
  cases hs with
  | lost hcall hphase =>
    rcases hphase with hphase | hphase
    · exact fun hsafe => hsafe.notFailed _ hcall hphase
    · rcases hanswered _ hcall with ⟨row, hphase'⟩ | hphase'
      · rw [hphase] at hphase'
        cases hphase'
      · rw [hphase] at hphase'
        cases hphase'
  | late hcall hmissing => exact absurd hmissing (hend _ hcall)
  | rivals _ hi _ hmissing => exact absurd hmissing (hend _ (List.mem_of_getElem? hi))

/-- A call that begins while another one for a new domain is in progress. -/
theorem doomed_of_overlap (hinv : Inv env s) {argument : String}
    (hok : ¬ FirstAlone env s (.getOrAdd argument)) :
    Doomed env { s with calls := s.calls ++ [⟨argument, .started s.database.domains⟩] } := by
  simp only [FirstAlone, not_or, not_exists, not_and, not_forall, not_not] at hok
  obtain ⟨hnew, call, hcall, hprogress, hname⟩ := hok
  obtain ⟨i, hi⟩ := List.mem_iff_getElem?.mp hcall
  have hlt : i < s.calls.length := (List.getElem?_eq_some_iff.mp hi).1
  have hmissing : call.Missing env := by
    have hc := hinv.calls i call hi
    unfold Call.Tracked at hc
    unfold Call.Missing
    unfold Phase.InProgress at hprogress
    split
    · next snapshot hphase =>
      rw [hphase] at hc
      exact fun row hrow hrowname => hnew row (hc row hrow) (hrowname.trans hname)
    · trivial
    · trivial
    · split at hprogress <;> simp_all
  exact .rivals hlt.ne (getElem?_append_of_some hi) List.getElem?_concat_length hmissing hnew hname

theorem Doomed.getOrAdd (hs : Doomed env s) (argument : String) :
    Doomed env { s with calls := s.calls ++ [⟨argument, .started s.database.domains⟩] } := by
  cases hs with
  | lost hcall hphase => exact .lost (List.mem_append_left _ hcall) hphase
  | late hcall hmissing hrow => exact .late (List.mem_append_left _ hcall) hmissing hrow
  | rivals hij hi hj hmissing hmissing' hname =>
    exact .rivals hij (getElem?_append_of_some hi) (getElem?_append_of_some hj) hmissing hmissing'
      hname

/-- A call that goes on saves neither itself nor another. -/
theorem Acts.doomed (hact : Acts env s call database phase) (hinv : Inv env s) {k : ℕ}
    (hk : s.calls[k]? = some call) (hs : Doomed env s) :
    Doomed env { database := database, calls := s.calls.set k { call with phase := phase } } := by
  have hnew : (s.calls.set k { call with phase := phase })[k]? =
      some { call with phase := phase } := by
    rw [List.getElem?_set_self', hk]
    rfl
  have hc := hinv.calls k call hk
  cases hs with
  | @lost call' hcall' hphase =>
    obtain ⟨i, hi⟩ := List.mem_iff_getElem?.mp hcall'
    have hik : k ≠ i := by
      rintro rfl
      rw [hk] at hi
      obtain rfl := Option.some.inj hi
      have hprogress := hact.inProgress
      rcases hphase with hphase | hphase <;> rw [hphase] at hprogress <;> exact hprogress
    exact .lost (List.mem_of_getElem? ((List.getElem?_set_ne hik).trans hi)) hphase
  | @late call' hcall' hmissing hrow =>
    obtain ⟨i, hi⟩ := List.mem_iff_getElem?.mp hcall'
    obtain ⟨row, hrow, hname⟩ := hrow
    by_cases hik : k = i
    · subst hik
      rw [hk] at hi
      obtain rfl := Option.some.inj hi
      rcases hact.missing_after hmissing hc with hmissing | hphase | ⟨-, habsent⟩
      · exact .late (List.mem_of_getElem? hnew) hmissing ⟨row, hact.mem_domains hrow, hname⟩
      · exact .lost (List.mem_of_getElem? hnew) hphase
      · exact absurd hname (habsent row hrow)
    · exact .late (List.mem_of_getElem? ((List.getElem?_set_ne hik).trans hi)) hmissing
        ⟨row, hact.mem_domains hrow, hname⟩
  | @rivals i j call₁ call₂ hij hi hj hmissing hmissing' hname =>
    -- whichever of the two goes on, the other one is left behind
    have hrival : ∀ {j call₂}, k ≠ j → s.calls[j]? = some call₂ → call.Missing env →
        call₂.Missing env → call.name env = call₂.name env →
        Doomed env
          { database := database, calls := s.calls.set k { call with phase := phase } } := by
      intro j call₂ hkj hj hmissing hmissing' hname
      have hj' := (List.getElem?_set_ne (a := { call with phase := phase }) hkj).trans hj
      rcases hact.missing_after hmissing hc with hmissing | hphase | ⟨⟨row, hrow, hrowname⟩, -⟩
      · exact .rivals hkj hnew hj' hmissing hmissing' hname
      · exact .lost (List.mem_of_getElem? hnew) hphase
      · exact .late (List.mem_of_getElem? hj') hmissing' ⟨row, hrow, hrowname.trans hname⟩
    by_cases hki : k = i
    · subst hki
      rw [hk] at hi
      obtain rfl := Option.some.inj hi
      exact hrival hij hj hmissing hmissing' hname
    · by_cases hkj : k = j
      · subst hkj
        rw [hk] at hj
        obtain rfl := Option.some.inj hj
        exact hrival (Ne.symm hij) hi hmissing' hmissing hname.symm
      · exact .rivals hij ((List.getElem?_set_ne hki).trans hi)
          ((List.getElem?_set_ne hkj).trans hj) hmissing hmissing' hname

/-- As long as the calls for new domains do not overlap no call is doomed to fail. -/
theorem run_or_doomed (h : Run (step env) always .init es t) :
    Run (step env) (FirstAlone env) .init es t ∨ Doomed env t := by
  induction h with
  | nil => exact .inl .nil
  | @snoc es s t e hr _ hs ih =>
    have hinv := inv_run hr
    by_cases hok : FirstAlone env s e
    · refine ih.imp (fun hrun => hrun.snoc hok hs) ?_
      intro hdoomed
      obtain ⟨argument, rfl, rfl⟩ | ⟨k, action, call, database, phase, -, hk, hact, rfl⟩ :=
        step_cases hs
      · exact hdoomed.getOrAdd argument
      · exact hact.doomed hinv hk hdoomed
    · obtain ⟨argument, rfl, rfl⟩ | ⟨k, action, call, database, phase, rfl, -⟩ := step_cases hs
      · exact .inr (doomed_of_overlap hinv hok)
      · exact absurd trivial hok

/-- **When `GetOrAdd` is safe.** If a call for a domain that is not in the table only begins
while no other call for the domain, ignoring case, is in progress, the calls are safe in
every state of the run. In every other run in which all calls are answered, one has failed. -/
theorem getOrAdd_safe_iff (env : Globalization) (es : List Event) (t : State) :
    (Run (step env) (FirstAlone env) .init es t → Safe env t) ∧
      (Run (step env) always .init es t → Answered t →
        (Safe env t ↔ Run (step env) (FirstAlone env) .init es t)) := by
  have hsafe : Run (step env) (FirstAlone env) .init es t → Safe env t := by
    intro h
    exact (lone_run h).safe (inv_run h)
  refine ⟨hsafe, fun hr hanswered => ⟨?_, hsafe⟩⟩
  intro hs
  rcases run_or_doomed hr with h | hdoomed
  · exact h
  · exact absurd hs (not_safe_of_doomed hdoomed hanswered)

/-! ## Runs -/

/-- Two calls for one domain, one after the other. -/
def oneByOne : List Event :=
  [.getOrAdd "example.com", .act 0 .evaluate, .act 0 .insert, .act 0 .commit,
    .getOrAdd "example.com", .act 1 .evaluate]

/-- Two calls for a new domain, one after the other, return its row. -/
def oneByOneEnd : State :=
  ⟨{ Database.init with domains := [⟨1, "example.com"⟩], domainSequence := 1 },
    [⟨"example.com", .returned ⟨1, "example.com"⟩⟩, ⟨"example.com", .returned ⟨1, "example.com"⟩⟩]⟩

theorem run_oneByOne :
    Run (step .invariantMode) (FirstAlone .invariantMode) .init oneByOne oneByOneEnd :=
  run_iff_foldlM_guarded.mpr (by decide +kernel)

theorem getOrAdd_safe_iff_oneByOne :
    Safe .invariantMode oneByOneEnd ∧ (Safe .invariantMode oneByOneEnd ↔
      Run (step .invariantMode) (FirstAlone .invariantMode) .init oneByOne oneByOneEnd) :=
  ⟨(getOrAdd_safe_iff .invariantMode oneByOne oneByOneEnd).1 run_oneByOne,
    (getOrAdd_safe_iff .invariantMode oneByOne oneByOneEnd).2 run_oneByOne.always (by
      intro call hcall
      left
      rcases List.mem_pair.mp hcall with rfl | rfl
      · exact ⟨_, rfl⟩
      · exact ⟨_, rfl⟩)⟩

/-- Two calls for one domain, both of which begin before the row is there. -/
def overlapping : List Event :=
  [.getOrAdd "example.com", .getOrAdd "example.com", .act 0 .evaluate, .act 1 .evaluate,
    .act 0 .insert, .act 0 .commit, .act 1 .insert]

/-- The second of two calls that overlap has failed. -/
def overlappingEnd : State :=
  ⟨{ Database.init with domains := [⟨1, "example.com"⟩], domainSequence := 2 },
    [⟨"example.com", .returned ⟨1, "example.com"⟩⟩, ⟨"example.com", .failed⟩]⟩

/-- Nothing keeps two calls for a new domain from overlapping: the second one fails. -/
theorem overlap_fails :
    Run (step .invariantMode) always .init overlapping overlappingEnd ∧
      ¬ Safe .invariantMode overlappingEnd := by
  refine ⟨run_iff_foldlM.mpr (by decide +kernel), ?_⟩
  intro hsafe
  exact hsafe.notFailed ⟨"example.com", .failed⟩ (by decide) rfl

end Shortener.Links.Register
