import Shortener.Stats.Sums

/-!
# Names and classes

A row has a counter for each class of visitors, such as the platforms, and one object with the
names of all of them. The reader lets the classes with a non-zero counter, in a fixed order,
take the names they recognize.

* `sorted_count`: a visit keeps the names of each class in step with its counter if the reader
  gives its name to its class, and all older names to the classes that had them before.
* `readIn_exact`: what the reader makes of such a row.
* `addGroups_exact`: groups whose parts add up still do after accumulation.
-/

namespace Shortener.Stats

open Shortener.DotNet

/-! ## Classes -/

/-- A class, and the names it recognizes. -/
structure Class (τ : Type) where
  type : τ
  recognizes : String → Bool

/-- The class that takes a name. -/
def assigned {τ : Type} (classes : List (Class τ)) (counter : τ → ℤ) (name : String) : Option τ :=
  (classes.find? fun c => counter c.type ≠ 0 ∧ c.recognizes name).map Class.type

theorem counter_of_assigned {τ : Type} {classes : List (Class τ)} {counter : τ → ℤ} {name : String}
    {type : τ} (h : assigned classes counter name = some type) : counter type ≠ 0 := by
  obtain ⟨c, hc, rfl⟩ := Option.map_eq_some_iff.mp h
  have hfound := List.find?_some hc
  exact (of_decide_eq_true hfound).1

section

variable {τ : Type} [DecidableEq τ]

/-- The counter of each class that takes names is the number of times these were counted. -/
def SortedNames (classes : List (Class τ)) (counter : τ → ℤ) (names : Dictionary String ℤ) : Prop :=
  ∀ c ∈ classes, counter c.type ≠ 0 →
    (names.filter fun name => assigned classes counter name = some c.type).sum = counter c.type

/-- The counters after a visit of `type`. -/
def counted (counter : τ → ℤ) (type : Option τ) (t : τ) : ℤ := counter t + flag (type = some t)

/-- A visit of `type`, counted under `name`, fits a row: the name goes to the class of the
    visit, if it is one of `classes`, and the names of the row stay where they were. -/
structure Fits (classes : List (Class τ)) (counter : τ → ℤ) (names : Dictionary String ℤ)
    (type : Option τ) (name : Option String) : Prop where
  new : name.bind (assigned classes (counted counter type)) =
    type.filter (· ∈ classes.map Class.type)
  old : ∀ n ∈ names, assigned classes (counted counter type) n = assigned classes counter n

variable {classes : List (Class τ)} {counter : τ → ℤ} {names : Dictionary String ℤ}

instance (type : Option τ) (name : Option String) : Decidable (Fits classes counter names type name) :=
  decidable_of_iff
    (name.bind (assigned classes (counted counter type)) = type.filter (· ∈ classes.map Class.type) ∧
      ∀ n ∈ names.keys, assigned classes (counted counter type) n = assigned classes counter n)
    ⟨fun h => ⟨h.1, fun n hn => h.2 n (AList.mem_keys.mp hn)⟩,
      fun h => ⟨h.new, fun n hn => h.old n (AList.mem_keys.mpr hn)⟩⟩

theorem sortedNames_empty (classes : List (Class τ)) (names : Dictionary String ℤ) :
    SortedNames classes (fun _ => 0) names := fun _ _ h => absurd rfl h

/-- Counting a name counts for its class. -/
theorem sum_filter_count (p : String → Bool) (names : Dictionary String ℤ) (name : Option String) :
    ((count names name).filter p).sum = (names.filter p).sum + flag (∃ n, name = some n ∧ p n) := by
  cases name with
  | none => simp [count, flag]
  | some name =>
    rw [count, Option.elim_some, Dictionary.sum_filter_increment]
    simp [flag]

/-- **A visit that fits.** -/
theorem sorted_count (hsorted : SortedNames classes counter names) {type : Option τ}
    {name : Option String} (hfits : Fits classes counter names type name) :
    SortedNames classes (counted counter type) (count names name) := by
  intro c hc _
  have hold : (names.filter fun n => assigned classes (counted counter type) n = some c.type).sum =
      counter c.type := by
    have hsame : ∀ n, (names.filter fun n => assigned classes (counted counter type) n = some c.type).lookup n =
        (names.filter fun n => assigned classes counter n = some c.type).lookup n :=
      Dictionary.lookup_filter_congr fun n hn => by rw [hfits.old n hn]
    rw [Dictionary.sum, Dictionary.sumOf_congr hsame]
    by_cases hcounter : counter c.type = 0
    · -- no name was taken by a class without visits
      have hnone : ∀ n, (names.filter fun n => assigned classes counter n = some c.type).lookup n =
          (∅ : Dictionary String ℤ).lookup n := by
        intro n
        rw [Dictionary.lookup_filter, AList.lookup_empty]
        refine if_neg fun h => ?_
        exact counter_of_assigned (of_decide_eq_true h) hcounter
      rw [Dictionary.sumOf_congr hnone, hcounter]
      rfl
    · exact hsorted c hc hcounter
  have hnew : (∃ n, name = some n ∧
      decide (assigned classes (counted counter type) n = some c.type) = true) ↔ type = some c.type := by
    have hbind : name.bind (assigned classes (counted counter type)) = some c.type ↔
        type = some c.type := by
      rw [hfits.new, Option.filter_eq_some_iff]
      exact and_iff_left (decide_eq_true (List.mem_map_of_mem hc))
    rw [← hbind, Option.bind_eq_some_iff]
    simp only [decide_eq_true_eq]
  rw [sum_filter_count, hold, counted]
  simp only [hnew]

end

/-! ## What is taken and what stays -/

section

variable {select : String → Exec (Option String)} {sel : String → Option String}
  {entries entries' taken : Dictionary String ℤ}

/-- The loop moves the values of the entries it takes. -/
theorem takeEntry_loop_sum {es : List (Σ _ : String, ℤ)}
    {dicts dicts' : Dictionary String ℤ × Dictionary String ℤ}
    (hsel : ∀ entry ∈ es, select entry.1 = .ret (sel entry.1)) (hes : ∀ entry ∈ es, 0 ≤ entry.2)
    (hnonneg : dicts.1.Nonneg) (h : es.foldlM (takeEntry select) dicts = .ret dicts') :
    dicts'.1.Nonneg ∧ dicts'.1.sum = dicts.1.sum +
      ((es.filter fun entry => (sel entry.1).isSome).map Sigma.snd).sum := by
  induction es generalizing dicts with
  | nil =>
    obtain rfl := Exec.ret.inj h
    exact ⟨hnonneg, (add_zero _).symm⟩
  | cons entry es ih =>
    obtain ⟨hentry, hrest⟩ := List.forall_mem_cons.mp hsel
    obtain ⟨hvalue, hvalues⟩ := List.forall_mem_cons.mp hes
    obtain ⟨dicts₁, hstep, hloop⟩ := Exec.foldlM_cons_eq_ret_iff.mp h
    cases hname : sel entry.1 with
    | none =>
      rw [hname] at hentry
      obtain rfl := Exec.ret.inj ((takeEntry_none hentry).symm.trans hstep)
      rw [List.filter_cons_of_neg (by simp [hname])]
      exact ih hrest hvalues hnonneg hloop
    | some name =>
      rw [hname] at hentry
      obtain ⟨hnot, rfl⟩ := (takeEntry_some hentry).mp hstep
      obtain ⟨hnonneg', hsum⟩ := ih hrest hvalues (hnonneg.insert hvalue) hloop
      refine ⟨hnonneg', ?_⟩
      rw [hsum, List.filter_cons_of_pos (by simp [hname]), List.map_cons, List.sum_cons, ← add_assoc]
      congr 1
      exact Dictionary.sumOf_insert_new id (AList.lookup_eq_none.mpr hnot) entry.2

theorem takeEntry_loop_lookup {es : List (Σ _ : String, ℤ)}
    {dicts dicts' : Dictionary String ℤ × Dictionary String ℤ}
    (hsel : ∀ entry ∈ es, select entry.1 = .ret (sel entry.1))
    (h : es.foldlM (takeEntry select) dicts = .ret dicts') {key : String} (hkey : key ∈ dicts'.2) :
    dicts'.2.lookup key = dicts.2.lookup key := by
  induction es generalizing dicts with
  | nil =>
    obtain rfl := Exec.ret.inj h
    rfl
  | cons entry es ih =>
    obtain ⟨hentry, hrest⟩ := List.forall_mem_cons.mp hsel
    obtain ⟨dicts₁, hstep, hloop⟩ := Exec.foldlM_cons_eq_ret_iff.mp h
    rw [ih hrest hloop]
    cases hname : sel entry.1 with
    | none =>
      rw [hname] at hentry
      obtain rfl := Exec.ret.inj ((takeEntry_none hentry).symm.trans hstep)
      rfl
    | some name =>
      rw [hname] at hentry
      obtain ⟨-, rfl⟩ := (takeEntry_some hentry).mp hstep
      have hmem := ((takeEntry_loop_mem hrest hloop key).mp hkey).1
      exact AList.lookup_erase_ne (AList.mem_erase.mp hmem).1

/-- `takeEntries` splits the entries. -/
theorem takeEntries_split (hsel : ∀ key ∈ entries, select key = .ret (sel key)) (hnonneg : entries.Nonneg)
    (h : takeEntries select entries = .ret (taken, entries')) :
    taken.Nonneg ∧ taken.sum = (entries.filter fun key => (sel key).isSome).sum ∧
      ∀ key, entries'.lookup key = (entries.filter fun key => (sel key).isNone).lookup key := by
  have hsel' : ∀ entry ∈ entries.entries, select entry.1 = .ret (sel entry.1) :=
    fun entry h => hsel _ (AList.mem_keys.mpr (List.mem_keys_of_mem h))
  obtain ⟨htaken, hsum⟩ := takeEntry_loop_sum hsel'
    (fun entry hentry => hnonneg entry.1 entry.2 (Dictionary.lookup_entry hentry))
    Dictionary.nonneg_empty h
  refine ⟨htaken, hsum.trans (zero_add _), ?_⟩
  intro key
  rw [Dictionary.lookup_filter]
  have hmem := mem_takeEntries hsel h key
  by_cases hkey : key ∈ entries'
  · rw [if_pos (Option.isNone_iff_eq_none.mpr (hmem.mp hkey).2)]
    exact takeEntry_loop_lookup hsel' h hkey
  · rw [AList.lookup_eq_none.mpr hkey]
    split_ifs with hnone
    · have hnot : key ∉ entries := fun hin => hkey (hmem.mpr ⟨hin, Option.isNone_iff_eq_none.mp hnone⟩)
      exact (AList.lookup_eq_none.mpr hnot).symm
    · rfl

end

/-! ## Reading class after class -/

section

variable {τ : Type}

/-- The groups that the classes make of `entries`, one class after the other. -/
inductive ReadIn (counter : τ → ℤ) :
    List (Class τ) → Dictionary String ℤ → List (GroupStats τ) → Prop
  | nil {entries : Dictionary String ℤ} : ReadIn counter [] entries []
  | cons {c : Class τ} {classes : List (Class τ)} {select : String → Exec (Option String)}
      {entries entries' : Dictionary String ℤ} {parts parts' : List (GroupStats τ)} :
      (∀ key ∈ entries, ∃ name, select key = .ret name ∧ name.isSome = c.recognizes key) →
      groupPart select c.type (counter c.type) entries = .ret (parts, entries') →
      ReadIn counter classes entries' parts' → ReadIn counter (c :: classes) entries (parts ++ parts')

variable {classes : List (Class τ)} {counter : τ → ℤ} {entries entries' : Dictionary String ℤ}
  {parts : List (GroupStats τ)}

theorem assigned_cons (c : Class τ) (classes : List (Class τ)) (counter : τ → ℤ) (name : String) :
    assigned (c :: classes) counter name =
      if counter c.type ≠ 0 ∧ c.recognizes name then some c.type else assigned classes counter name := by
  unfold assigned
  rw [List.find?_cons]
  by_cases h : counter c.type ≠ 0 ∧ c.recognizes name
  · rw [if_pos h, decide_eq_true h]
    rfl
  · rw [if_neg h, decide_eq_false h]

theorem mem_of_assigned {name : String} {type : τ} (h : assigned classes counter name = some type) :
    type ∈ classes.map Class.type := by
  obtain ⟨c, hc, rfl⟩ := Option.map_eq_some_iff.mp h
  exact List.mem_map_of_mem (List.mem_of_find?_eq_some hc)

/-- One class: its group has the names it takes, and the others are left. -/
theorem groupPart_split {select : String → Exec (Option String)} {c : Class τ}
    (hselect : ∀ key ∈ entries, ∃ name, select key = .ret name ∧ name.isSome = c.recognizes key)
    (hnonneg : entries.Nonneg)
    (h : groupPart select c.type (counter c.type) entries = .ret (parts, entries')) :
    (∀ part ∈ parts, counter c.type ≠ 0 ∧ part.partViews.Nonneg ∧
      part.partViews.sum = (entries.filter c.recognizes).sum) ∧
    ∀ key, entries'.lookup key =
      (entries.filter fun key => ¬ (counter c.type ≠ 0 ∧ c.recognizes key)).lookup key := by
  rcases groupPart_eq_ret_iff.mp h with ⟨hzero, rfl, rfl⟩ | ⟨hne, taken, htake, rfl⟩
  · refine ⟨fun part hpart => absurd hpart List.not_mem_nil, ?_⟩
    intro key
    rw [Dictionary.lookup_filter, if_pos (by simp [hzero])]
  · have hsel : ∀ key ∈ entries, select key = .ret ((select key).getD none) := by
      intro key hkey
      obtain ⟨name, hname, -⟩ := hselect key hkey
      exact Exec.Returns.eq_getD ⟨name, hname⟩ none
    have hrecognizes : ∀ key ∈ entries, ((select key).getD none).isSome = c.recognizes key := by
      intro key hkey
      obtain ⟨name, hname, hrec⟩ := hselect key hkey
      rw [hname]
      exact hrec
    obtain ⟨htaken, hsum, hrest⟩ := takeEntries_split hsel hnonneg htake
    constructor
    · intro part hpart
      rw [List.mem_singleton.mp hpart]
      refine ⟨hne, htaken, hsum.trans ?_⟩
      exact Dictionary.sumOf_congr (Dictionary.lookup_filter_congr hrecognizes) id
    · intro key
      rw [hrest key]
      refine Dictionary.lookup_filter_congr (fun k hk => ?_) key
      rw [← Option.not_isSome, hrecognizes k hk]
      simp [hne]

/-- **The groups of a row** have the names that are assigned to their classes. -/
theorem readIn_exact [DecidableEq τ] (h : ReadIn counter classes entries parts)
    (hnodup : (classes.map Class.type).Nodup) (hnonneg : entries.Nonneg) :
    ∀ part ∈ parts, part.type ∈ classes.map Class.type ∧ part.views = counter part.type ∧
      part.views ≠ 0 ∧ part.partViews.Nonneg ∧
      part.partViews.sum =
        (entries.filter fun name => assigned classes counter name = some part.type).sum := by
  induction h with
  | nil => exact fun part hpart => absurd hpart List.not_mem_nil
  | @cons c classes select entries entries' parts parts' hselect hpart _ ih =>
    obtain ⟨hnot, hnodup'⟩ := List.nodup_cons.mp hnodup
    obtain ⟨hfirst, hrest⟩ := groupPart_split hselect hnonneg hpart
    have hnonneg' : entries'.Nonneg := by
      intro key value hvalue
      rw [hrest, Dictionary.lookup_filter] at hvalue
      split_ifs at hvalue
      · exact hnonneg key value hvalue
      · cases hvalue
    intro part hmem
    rcases List.mem_append.mp hmem with hmem | hmem
    · obtain ⟨htype, hviews⟩ := mem_groupPart hpart hmem
      obtain ⟨hne, hpartNonneg, hsum⟩ := hfirst part hmem
      rw [htype, hviews]
      refine ⟨List.mem_cons_self, rfl, hne, hpartNonneg, hsum.trans ?_⟩
      refine Dictionary.sumOf_congr (Dictionary.lookup_filter_congr fun key _ => ?_) id
      rw [assigned_cons]
      by_cases hrec : c.recognizes key
      · simp [hne, hrec]
      · -- the class is not among the later ones
        have hlater : assigned classes counter key ≠ some c.type := fun h => hnot (mem_of_assigned h)
        simp [hrec, hlater]
    · obtain ⟨htype, hviews, hne, hpartNonneg, hsum⟩ := ih hnodup' hnonneg' part hmem
      refine ⟨List.mem_cons_of_mem _ htype, hviews, hne, hpartNonneg, hsum.trans ?_⟩
      refine Dictionary.sumOf_congr (fun key => ?_) id
      have hearlier : c.type ≠ part.type := fun h => hnot (h ▸ htype)
      rw [Dictionary.lookup_filter, hrest, Dictionary.lookup_filter, Dictionary.lookup_filter,
        assigned_cons]
      by_cases hc : counter c.type ≠ 0 ∧ c.recognizes key
      · simp [hc, hearlier]
      · simp [hc]

end

/-! ## Accumulation -/

section

variable {τ : Type}

/-- The parts of a group add up to its views. -/
structure GroupStats.Exact (stats : GroupStats τ) : Prop where
  nonneg : stats.partViews.Nonneg
  sum : stats.partViews.sum = stats.views

theorem GroupStats.Exact.views_nonneg {stats : GroupStats τ} (h : stats.Exact) : 0 ≤ stats.views :=
  h.sum ▸ h.nonneg.sum_nonneg

variable [DecidableEq τ]

theorem ReadIn.exact {counter : τ → ℤ} {classes : List (Class τ)} {entries : Dictionary String ℤ}
    {parts : List (GroupStats τ)} (h : ReadIn counter classes entries parts)
    (hnodup : (classes.map Class.type).Nodup) (hnonneg : entries.Nonneg)
    (hsorted : SortedNames classes counter entries) : ∀ part ∈ parts, part.Exact := by
  intro part hpart
  obtain ⟨htype, hviews, hne, hpartNonneg, hsum⟩ := readIn_exact h hnodup hnonneg part hpart
  obtain ⟨c, hc, hctype⟩ := List.mem_map.mp htype
  refine ⟨hpartNonneg, ?_⟩
  rw [hsum, hviews, ← hctype]
  exact hsorted c hc (by rwa [hctype, ← hviews])

theorem viewsSum_nonneg {parts : List (GroupStats τ)} {type : τ}
    (h : ∀ part ∈ parts, part.type = type → part.Exact) : 0 ≤ viewsSum parts type := by
  refine List.sum_nonneg (List.forall_mem_map.mpr ?_)
  intro part hpart
  split_ifs with htype
  · exact (h part hpart htype).views_nonneg
  · exact le_rfl

theorem addGroup_exact {groups : Groups τ} {part : GroupStats τ} {type : τ}
    (hgroups : ∀ stats ∈ groups.byType.lookup type, stats.Exact)
    (hpart : part.type = type → part.Exact)
    (hsmall : (groups.viewsOf type + if part.type = type then part.views else 0) < 2 ^ 31) :
    (∀ stats ∈ (addGroup groups part.type part.views part.partViews).byType.lookup type, stats.Exact) ∧
      (addGroup groups part.type part.views part.partViews).viewsOf type =
        groups.viewsOf type + if part.type = type then part.views else 0 := by
  by_cases htype : part.type = type
  · subst htype
    have hexact := hpart rfl
    rw [if_pos rfl] at hsmall ⊢
    cases hlookup : groups.byType.lookup part.type with
    | none =>
      rw [Groups.viewsOf_some (lookup_addGroup_none hlookup), Groups.viewsOf_none hlookup, zero_add]
      refine ⟨?_, rfl⟩
      intro stats hstats
      rw [lookup_addGroup_none hlookup] at hstats
      rwa [← Option.some.inj hstats]
    | some old =>
      have hold := hgroups old hlookup
      have hpos := hold.views_nonneg
      have hpos' := hexact.views_nonneg
      rw [Groups.viewsOf_some hlookup] at hsmall
      have hviews : toInt32 (old.views + part.views) = old.views + part.views :=
        toInt32_of_isInt32 ⟨by omega, hsmall⟩
      obtain ⟨hnonneg, hsum⟩ := Dictionary.merge_exact hold.nonneg hexact.nonneg
        (by rw [hold.sum, hexact.sum]; exact hsmall)
      rw [Groups.viewsOf_some (lookup_addGroup_some hlookup), Groups.viewsOf_some hlookup]
      refine ⟨?_, hviews⟩
      intro stats hstats
      rw [lookup_addGroup_some hlookup] at hstats
      rw [← Option.some.inj hstats]
      exact ⟨hnonneg, by rw [hsum, hold.sum, hexact.sum, hviews]⟩
  · rw [if_neg htype, add_zero]
    have hlookup : (addGroup groups part.type part.views part.partViews).byType.lookup type =
        groups.byType.lookup type := lookup_addGroup_ne (Ne.symm htype)
    rw [Groups.viewsOf, Groups.viewsOf, hlookup]
    exact ⟨hgroups, rfl⟩

theorem addGroups_exact {groups : Groups τ} {parts : List (GroupStats τ)} {type : τ}
    (hgroups : ∀ stats ∈ groups.byType.lookup type, stats.Exact)
    (hparts : ∀ part ∈ parts, part.type = type → part.Exact)
    (hsmall : groups.viewsOf type + viewsSum parts type < 2 ^ 31) :
    ∀ stats ∈ (addGroups groups parts).byType.lookup type, stats.Exact := by
  induction parts generalizing groups with
  | nil => exact hgroups
  | cons part parts ih =>
    obtain ⟨hpart, hrest⟩ := List.forall_mem_cons.mp hparts
    have hpos := viewsSum_nonneg hrest
    rw [viewsSum_cons] at hsmall
    obtain ⟨hexact, hviews⟩ := addGroup_exact hgroups hpart (by omega)
    have hsmall' : (addGroup groups part.type part.views part.partViews).viewsOf type +
        viewsSum parts type < 2 ^ 31 := by omega
    exact ih hexact hrest hsmall'

end

end Shortener.Stats
