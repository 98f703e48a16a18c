import Mathlib

/-!
# Keyset pagination

A listing is a list of rows sorted strictly by a key. `past key cursor rows` are the rows
beyond a cursor, which need not be the key of a row. For a page of size `n` the first
`n + 1` of them are fetched, which come in the order of `ident`, another key. The page holds
the first `n` of these; the last one tells that there is another page, which starts at the
cursor `next e z` for the last row `e` of the page and the row `z` that was left out.

* `past_eq_iff`: a cursor continues the listing after `b` exactly if it lies between `b`
  (included) and the row after `b` (excluded).
* `walk_rows_iff`: walking the pages gives every row once, in the order of the listing,
  exactly if the listing is sorted by `ident` too and the cursor of every page boundary
  continues it.
* `walk_perm_iff`: for cursors of the row left out, which do not go back: walking gives every
  row once, in any order, exactly if at every page boundary the next row is the one left out
  and its cursor lies between the page and the row.
-/

namespace Shortener.Common

variable {α κ ι : Type} [LinearOrder κ] [LinearOrder ι] {key : α → κ} {ident : α → ι}
  {rows : List α}

/-- The rows are sorted strictly by their keys. -/
def Listing (key : α → κ) (rows : List α) : Prop := rows.Pairwise fun a b => key a < key b

instance : Decidable (Listing key rows) :=
  inferInstanceAs (Decidable (rows.Pairwise fun a b => key a < key b))

/-- The rows beyond the cursor, if there is one. -/
def past (key : α → κ) (cursor : Option κ) (rows : List α) : List α :=
  rows.filter fun row => ∀ c ∈ cursor, c < key row

/-- The rows in the order of their keys. -/
def sortBy (key : α → κ) (rows : List α) : List α := rows.mergeSort fun a b => key a ≤ key b

/-- The first `limit` rows beyond the cursor, in the order of `ident`. -/
def fetch (key : α → κ) (ident : α → ι) (limit : ℕ) (cursor : Option κ) (rows : List α) : List α :=
  sortBy ident ((past key cursor rows).take limit)

/-- `page` is a page of size `n`, and `x` the row after it. -/
def PageBoundary (n : ℕ) (rows page : List α) (x : α) : Prop :=
  ∃ before after, rows = before ++ (page ++ x :: after) ∧ page.length = n ∧ n ∣ before.length

/-- At every boundary the cursor lies between the two rows. -/
def Continues (key : α → κ) (next : α → α → κ) (n : ℕ) (rows : List α) : Prop :=
  ∀ page b x, PageBoundary n rows (page ++ [b]) x → key b ≤ next b x ∧ next b x < key x

/-- At every boundary the next row has a greater `ident` than the page, and its cursor lies
    between the page and the row. -/
def ContinuesPages (key : α → κ) (ident : α → ι) (cut : α → κ) (n : ℕ) (rows : List α) : Prop :=
  ∀ page x, PageBoundary n rows page x →
    (∀ row ∈ page, ident row < ident x ∧ key row ≤ cut x) ∧ cut x < key x

/-- In pages of size `n`, each page is sorted by `ident`. -/
def PagesSorted (ident : α → ι) (n : ℕ) (rows : List α) : Prop :=
  ∀ before page after, rows = before ++ (page ++ after) → n ∣ before.length → page.length ≤ n →
    Listing ident page

/-- A walk from `cursor` that ends at a page without successor; the rows of its pages. -/
inductive Walk (key : α → κ) (ident : α → ι) (next : α → α → κ) (n : ℕ) (rows : List α) :
    Option κ → List α → Prop
  | last {cursor : Option κ} :
      past key cursor rows ≠ [] → (past key cursor rows).length ≤ n →
        Walk key ident next n rows cursor (sortBy ident (past key cursor rows))
  | more {cursor : Option κ} {page : List α} {e z : α} {received : List α} :
      n < (past key cursor rows).length →
        fetch key ident (n + 1) cursor rows = page ++ [e, z] →
          Walk key ident next n rows (some (next e z)) received →
            Walk key ident next n rows cursor (page ++ e :: received)

/-! ## Sorting -/

theorem sortBy_perm (key : α → κ) (rows : List α) : (sortBy key rows).Perm rows :=
  List.mergeSort_perm _ _

theorem sortBy_pairwise_le (key : α → κ) (rows : List α) :
    (sortBy key rows).Pairwise fun a b => key a ≤ key b := by
  have htrans : ∀ a b c : α, decide (key a ≤ key b) → decide (key b ≤ key c) →
      decide (key a ≤ key c) := by
    intro a b c hab hbc
    rw [decide_eq_true_eq] at hab hbc ⊢
    exact hab.trans hbc
  have htotal : ∀ a b : α, decide (key a ≤ key b) || decide (key b ≤ key a) := by
    intro a b
    simpa using le_total (key a) (key b)
  simpa [sortBy] using List.pairwise_mergeSort htrans htotal rows

/-- Sorting by distinct keys is strict. -/
theorem listing_sortBy (h : (rows.map key).Nodup) : Listing key (sortBy key rows) := by
  have hnodup : ((sortBy key rows).map key).Nodup :=
    ((sortBy_perm key rows).map key).nodup_iff.mpr h
  have hne : (sortBy key rows).Pairwise fun a b => key a ≠ key b := List.pairwise_map.mp hnodup
  exact (sortBy_pairwise_le key rows).imp₂ (fun _ _ hle hne => lt_of_le_of_ne hle hne) hne

/-- A listing is determined by its rows. -/
theorem Listing.eq_of_perm {l : List α} (h : Listing key rows) (h' : Listing key l)
    (hperm : rows.Perm l) : rows = l :=
  List.Perm.eq_of_pairwise (fun _ _ _ _ hab hba => absurd (hab.trans hba) (lt_irrefl _)) h h' hperm

theorem sortBy_eq {l : List α} (h : Listing key l) (hperm : l.Perm rows) : sortBy key rows = l := by
  have hnodup : (rows.map key).Nodup :=
    (hperm.map key).nodup_iff.mp (List.pairwise_map.mpr (h.imp fun hlt => hlt.ne))
  exact (listing_sortBy hnodup).eq_of_perm h ((sortBy_perm key rows).trans hperm.symm)

theorem Listing.sortBy_eq_self (h : Listing key rows) : sortBy key rows = rows :=
  sortBy_eq h (List.Perm.refl rows)

/-- A row with the largest key comes last. -/
theorem sortBy_append_singleton {x : α} (h : (rows.map key).Nodup)
    (hx : ∀ row ∈ rows, key row < key x) : sortBy key (rows ++ [x]) = sortBy key rows ++ [x] := by
  refine sortBy_eq (List.pairwise_append.mpr ⟨listing_sortBy h, List.pairwise_singleton _ _, ?_⟩)
    ((sortBy_perm key rows).append_right [x])
  intro row hrow row' hrow'
  obtain rfl := List.mem_singleton.mp hrow'
  exact hx row ((sortBy_perm key rows).mem_iff.mp hrow)

/-- The last row has the largest key. -/
theorem exists_last_sortBy (h : (rows.map key).Nodup) (hne : rows ≠ []) :
    ∃ l last, sortBy key rows = l ++ [last] ∧ ∀ row ∈ l, key row < key last := by
  rcases (sortBy key rows).eq_nil_or_concat with hnil | ⟨l, last, hl⟩
  · have hperm := sortBy_perm key rows
    rw [hnil] at hperm
    exact absurd (List.nil_perm.mp hperm) hne
  · rw [List.concat_eq_append] at hl
    have hsorted := listing_sortBy h
    rw [hl] at hsorted
    exact ⟨l, last, hl, fun row hrow =>
      (List.pairwise_append.mp hsorted).2.2 row hrow last (List.mem_singleton_self last)⟩

/-- The first row has the least key. -/
theorem head?_sortBy_iff {x : α} (h : (rows.map key).Nodup) :
    (sortBy key rows).head? = some x ↔ x ∈ rows ∧ ∀ row ∈ rows, key x ≤ key row := by
  have hperm := sortBy_perm key rows
  constructor
  · intro hhead
    obtain ⟨rest, hrest⟩ := List.head?_eq_some_iff.mp hhead
    have hsorted := sortBy_pairwise_le key rows
    rw [hrest] at hperm hsorted
    refine ⟨hperm.mem_iff.mp List.mem_cons_self, fun row hrow => ?_⟩
    rcases List.mem_cons.mp (hperm.mem_iff.mpr hrow) with rfl | hrow
    · exact le_rfl
    · exact (List.pairwise_cons.mp hsorted).1 row hrow
  · intro ⟨hmem, hle⟩
    have hsorted := listing_sortBy h
    cases hlist : sortBy key rows with
    | nil => exact absurd (hperm.mem_iff.mpr hmem) (by simp [hlist])
    | cons y rest =>
      rw [hlist] at hperm hsorted
      rcases List.mem_cons.mp (hperm.mem_iff.mpr hmem) with rfl | hrest
      · rfl
      · have hlt := (List.pairwise_cons.mp hsorted).1 x hrest
        exact absurd (hle y (hperm.mem_iff.mp List.mem_cons_self)) (not_le.mpr hlt)

/-- Selecting rows and sorting them commute. -/
theorem sortBy_filter (h : (rows.map key).Nodup) (p : α → Bool) :
    sortBy key (rows.filter p) = (sortBy key rows).filter p :=
  sortBy_eq ((listing_sortBy h).sublist List.filter_sublist) ((sortBy_perm key rows).filter p)

/-! ## Rows beyond a cursor -/

@[simp] theorem past_none (key : α → κ) (rows : List α) : past key none rows = rows := by
  simp [past]

theorem mem_past {cursor : Option κ} {row : α} :
    row ∈ past key cursor rows ↔ row ∈ rows ∧ ∀ c ∈ cursor, c < key row := by
  simp [past]

theorem mem_past_some {c : κ} {row : α} : row ∈ past key (some c) rows ↔ row ∈ rows ∧ c < key row := by
  simp [past]

theorem Listing.past (h : Listing key rows) (cursor : Option κ) :
    Listing key (past key cursor rows) := h.sublist List.filter_sublist

/-- The rows beyond a cursor are the last rows. -/
theorem Listing.past_suffix (h : Listing key rows) (cursor : Option κ) :
    Common.past key cursor rows <:+ rows := by
  induction rows with
  | nil => exact List.suffix_refl _
  | cons row rows ih =>
    obtain ⟨hrow, hrows⟩ := List.pairwise_cons.mp h
    by_cases hc : ∀ c ∈ cursor, c < key row
    · have hall : Common.past key cursor (row :: rows) = row :: rows := by
        refine List.filter_eq_self.mpr fun row' hmem => decide_eq_true fun c hmemc => ?_
        rcases List.mem_cons.mp hmem with rfl | hmem
        · exact hc c hmemc
        · exact (hc c hmemc).trans (hrow row' hmem)
      rw [hall]
    · have htail : Common.past key cursor (row :: rows) = Common.past key cursor rows :=
        List.filter_cons_of_neg (by simpa using hc)
      rw [htail]
      exact (ih hrows).trans (List.suffix_cons row rows)

/-- The rows beyond a cursor that are beyond another one are the last of these. -/
theorem Listing.past_suffix_past (h : Listing key rows) {c c' : Option κ}
    (hsub : Common.past key c rows ⊆ Common.past key c' rows) :
    Common.past key c rows <:+ Common.past key c' rows := by
  rcases List.suffix_or_suffix_of_suffix (h.past_suffix c) (h.past_suffix c') with hsuf | hsuf
  · exact hsuf
  · have hnodup : (Common.past key c rows).Nodup := (h.past c).imp fun hlt heq => (heq ▸ hlt).false
    rw [hsuf.eq_of_length_le (List.subperm_of_subset hnodup hsub).length_le]

theorem Listing.nodup (h : Listing key rows) : rows.Nodup :=
  List.Pairwise.imp (fun hlt heq => (heq ▸ hlt).false) h

/-- Suffixes of a list without duplicates are equal if they start with the same row. -/
theorem suffix_eq_of_cons {x : α} {l l' : List α} (hnodup : rows.Nodup) (h : x :: l <:+ rows)
    (h' : x :: l' <:+ rows) : l = l' := by
  rcases List.suffix_or_suffix_of_suffix h h' with hsuf | hsuf
  · rcases List.suffix_cons_iff.mp hsuf with heq | hsuf
    · exact (List.cons.inj heq).2
    · exact absurd (hsuf.subset List.mem_cons_self) (List.nodup_cons.mp (hnodup.sublist h'.sublist)).1
  · rcases List.suffix_cons_iff.mp hsuf with heq | hsuf
    · exact (List.cons.inj heq).2.symm
    · exact absurd (hsuf.subset List.mem_cons_self) (List.nodup_cons.mp (hnodup.sublist h.sublist)).1

theorem past_eq_iff {before after : List α} {b x : α}
    (h : Listing key (before ++ b :: x :: after)) {c : κ} :
    past key (some c) (before ++ b :: x :: after) = x :: after ↔ key b ≤ c ∧ c < key x := by
  obtain ⟨-, hafter, hbefore⟩ := List.pairwise_append.mp h
  obtain ⟨hb, hx⟩ := List.pairwise_cons.mp hafter
  constructor
  · intro heq
    have hxmem : x ∈ past key (some c) (before ++ b :: x :: after) := by
      rw [heq]
      exact List.mem_cons_self
    refine ⟨?_, (mem_past_some.mp hxmem).2⟩
    by_contra hlt
    have hbmem : b ∈ past key (some c) (before ++ b :: x :: after) :=
      mem_past_some.mpr ⟨by simp, not_le.mp hlt⟩
    rw [heq] at hbmem
    exact (hb b hbmem).false
  · intro ⟨hle, hlt⟩
    have hkeep : ∀ row ∈ x :: after, c < key row := by
      intro row hmem
      rcases List.mem_cons.mp hmem with rfl | hmem
      · exact hlt
      · exact hlt.trans ((List.pairwise_cons.mp hx).1 row hmem)
    have hskip : ∀ row ∈ before, ¬ c < key row := fun row hmem =>
      not_lt.mpr ((hbefore row hmem b List.mem_cons_self).le.trans hle)
    rw [past, List.filter_append, List.filter_eq_nil_iff.mpr (by simpa using hskip),
      List.filter_cons_of_neg (by simpa using hle), List.nil_append]
    exact List.filter_eq_self.mpr (by simpa using hkeep)

theorem past_key_eq {before after : List α} {b : α} (h : Listing key (before ++ b :: after)) :
    past key (some (key b)) (before ++ b :: after) = after := by
  obtain ⟨-, hafter, hbefore⟩ := List.pairwise_append.mp h
  have hskip : ∀ row ∈ before, ¬ key b < key row := fun row hmem =>
    not_lt.mpr (hbefore row hmem b List.mem_cons_self).le
  rw [past, List.filter_append, List.filter_eq_nil_iff.mpr (by simpa using hskip),
    List.filter_cons_of_neg (by simp), List.nil_append]
  exact List.filter_eq_self.mpr (by simpa using (List.pairwise_cons.mp hafter).1)

/-- Beyond the key of the last row of a page are the rows that the page leaves. -/
theorem Listing.past_getLast (h : Listing key rows) {cursor : Option κ} {n : ℕ} {b : α}
    (hb : ((Common.past key cursor rows).take n).getLast? = some b) :
    Common.past key (some (key b)) rows = (Common.past key cursor rows).drop n := by
  obtain ⟨page, hpage⟩ := List.getLast?_eq_some_iff.mp hb
  obtain ⟨before, hrows⟩ := h.past_suffix cursor
  have hsplit : Common.past key cursor rows = page ++ b :: (Common.past key cursor rows).drop n := by
    conv_lhs => rw [← List.take_append_drop n (Common.past key cursor rows), hpage]
    simp
  have hall : rows = (before ++ page) ++ b :: (Common.past key cursor rows).drop n := by
    rw [List.append_assoc, ← hsplit, hrows]
  rw [hall] at h
  have hpast := past_key_eq h
  rwa [← hall] at hpast

/-- The first rows of a list that are also in a suffix are among its first rows. -/
theorem mem_take_of_suffix {l l' : List α} {y : α} {k : ℕ} (hsuffix : l' <:+ l) (hnodup : l.Nodup)
    (hy : y ∈ l.take k) (hy' : y ∈ l') : y ∈ l'.take k := by
  obtain ⟨before, rfl⟩ := hsuffix
  rw [List.take_append, List.mem_append] at hy
  rcases hy with hy | hy
  · exact absurd hy' ((List.nodup_append'.mp hnodup).2.2 (List.mem_of_mem_take hy))
  · exact List.take_subset_take_left _ (Nat.sub_le _ _) hy

/-! ## Rows that are fetched -/

section

variable {limit n : ℕ} {cursor : Option κ} {row : α}

theorem fetch_perm (key : α → κ) (ident : α → ι) (limit : ℕ) (cursor : Option κ) (rows : List α) :
    (fetch key ident limit cursor rows).Perm ((past key cursor rows).take limit) :=
  sortBy_perm _ _

theorem mem_fetch :
    row ∈ fetch key ident limit cursor rows ↔ row ∈ (past key cursor rows).take limit :=
  (fetch_perm key ident limit cursor rows).mem_iff

theorem past_subset (key : α → κ) (cursor : Option κ) (rows : List α) :
    past key cursor rows ⊆ rows := List.filter_sublist.subset

theorem mem_past_of_fetch (h : row ∈ fetch key ident limit cursor rows) :
    row ∈ past key cursor rows := List.mem_of_mem_take (mem_fetch.mp h)

theorem listing_fetch (hident : (rows.map ident).Nodup) (limit : ℕ) (cursor : Option κ) :
    Listing ident (fetch key ident limit cursor rows) := by
  apply listing_sortBy
  have hsublist : ((past key cursor rows).take limit).Sublist rows :=
    (List.take_sublist _ _).trans List.filter_sublist
  exact hident.sublist (hsublist.map ident)

/-- More rows than a page holds: the page, its last row and the row left out. -/
theorem exists_fetch (key : α → κ) (ident : α → ι) (hn : 0 < n)
    (h : n < (past key cursor rows).length) :
    ∃ page e z, fetch key ident (n + 1) cursor rows = page ++ [e, z] ∧ page.length + 1 = n := by
  have hlen : (fetch key ident (n + 1) cursor rows).length = n + 1 := by
    rw [(fetch_perm key ident (n + 1) cursor rows).length_eq, List.length_take]
    omega
  obtain ⟨l, z, hl⟩ := (fetch key ident (n + 1) cursor rows).eq_nil_or_concat.resolve_left
    (List.ne_nil_of_length_pos (by omega))
  obtain ⟨page, e, hpage⟩ := l.eq_nil_or_concat.resolve_left fun hnil => by
    rw [hl, hnil] at hlen
    simp only [List.concat_eq_append, List.nil_append, List.length_singleton] at hlen
    omega
  rw [hl, hpage] at hlen ⊢
  simp only [List.concat_eq_append, List.length_append, List.length_singleton] at hlen
  exact ⟨page, e, z, by simp, by omega⟩

/-- The page and the row left out are the first rows, and the latter has the largest `ident`. -/
theorem fetch_spec (hident : (rows.map ident).Nodup) {page : List α} {e z : α}
    (h : fetch key ident (n + 1) cursor rows = page ++ [e, z]) :
    (∀ row, row ∈ (past key cursor rows).take (n + 1) ↔ row ∈ page ++ [e] ∨ row = z) ∧
      (∀ row ∈ page ++ [e], ident row < ident z) := by
  have hsorted : Listing ident (fetch key ident (n + 1) cursor rows) := listing_fetch hident _ _
  rw [h, show page ++ [e, z] = (page ++ [e]) ++ [z] by simp] at hsorted
  constructor
  · intro row
    rw [← (fetch_perm key ident (n + 1) cursor rows).mem_iff, h]
    simp [or_assoc]
  · intro row hrow
    exact (List.pairwise_append.mp hsorted).2.2 row hrow z (List.mem_singleton_self z)

end

/-! ## A new row -/

/-- Rows that are filtered out behind the first ones do not change these. -/
theorem take_filter {p : α → Bool} {k : ℕ} (h : ∀ row ∈ rows.take k, p row = true) :
    (rows.filter p).take k = rows.take k := by
  induction rows generalizing k with
  | nil => rfl
  | cons row rows ih =>
    cases k with
    | zero => rfl
    | succ k =>
      rw [List.take_succ_cons, List.forall_mem_cons] at h
      rw [List.filter_cons_of_pos h.1, List.take_succ_cons, List.take_succ_cons, ih h.2]

/-- Without a row `x`, the first rows are one less. -/
theorem take_succ_perm {x : α} {p : α → Bool} {k : ℕ} (hnodup : rows.Nodup)
    (hp : ∀ row ∈ rows, p row = true ↔ row ≠ x) (hx : x ∈ rows.take (k + 1)) :
    (rows.take (k + 1)).Perm (x :: (rows.filter p).take k) := by
  induction rows generalizing k with
  | nil => simp at hx
  | cons row rows ih =>
    obtain ⟨hrow, hnodup⟩ := List.nodup_cons.mp hnodup
    obtain ⟨hprow, hp⟩ := List.forall_mem_cons.mp hp
    by_cases heq : row = x
    · subst heq
      have hall : rows.filter p = rows :=
        List.filter_eq_self.mpr fun row' hmem => (hp row' hmem).mpr fun h => hrow (h ▸ hmem)
      rw [List.filter_cons_of_neg (by simp [hprow]), hall, List.take_succ_cons]
    · rw [List.take_succ_cons] at hx ⊢
      rw [List.filter_cons_of_pos (hprow.mpr heq)]
      have hmem : x ∈ rows.take k := (List.mem_cons.mp hx).resolve_left (Ne.symm heq)
      cases k with
      | zero => simp at hmem
      | succ k =>
        rw [List.take_succ_cons]
        exact ((ih hnodup hp hmem).cons row).trans (List.Perm.swap _ _ _)

/-- Without the last one, sorted rows are those before `z` exactly if `z` has the largest key. -/
theorem take_sortBy_concat_iff {z : α} (h : ((rows ++ [z]).map key).Nodup) :
    (sortBy key (rows ++ [z])).take rows.length = sortBy key rows ↔
      ∀ row ∈ rows, key row < key z := by
  have hrows : (rows.map key).Nodup := h.sublist ((List.sublist_append_left rows [z]).map key)
  constructor
  · intro heq row hrow
    obtain ⟨l, last, hl, hlt⟩ := exists_last_sortBy h (by simp)
    have hperm := sortBy_perm key (rows ++ [z])
    rw [hl] at heq hperm
    have hlen : l.length = rows.length := by simpa using hperm.length_eq
    rw [List.take_left' hlen] at heq
    have hz : z ∉ l := by
      rw [heq, (sortBy_perm key rows).mem_iff]
      exact fun hmem => (List.nodup_append'.mp h.of_map).2.2 hmem (List.mem_singleton_self z)
    have hlast : z = last := by
      have hmem : z ∈ l ++ [last] := hperm.mem_iff.mpr (by simp)
      simpa using (List.mem_append.mp hmem).resolve_left hz
    rw [hlast]
    exact hlt row (heq ▸ (sortBy_perm key rows).mem_iff.mpr hrow)
  · intro hz
    rw [sortBy_append_singleton hrows hz, List.take_left']
    exact (sortBy_perm key rows).length_eq

/-- A new row `x` with the largest `ident` that is fetched does not change the page exactly if the
    old rows fill it and the one left out, if there is one, has the largest `ident` of them. -/
theorem take_sortBy_insert_iff {rows' : List α} {x : α} {n : ℕ} (hident : (rows.map ident).Nodup)
    (hperm : rows'.Perm (x :: rows.take n)) (hmax : ∀ row ∈ rows, ident row < ident x) :
    (sortBy ident rows').take n = (sortBy ident (rows.take (n + 1))).take n ↔
      n ≤ rows.length ∧ ∀ z ∈ rows[n]?, ∀ row ∈ rows.take n, ident row < ident z := by
  have htake : ((rows.take n).map ident).Nodup :=
    hident.sublist ((List.take_sublist n rows).map ident)
  have hlen : (sortBy ident (rows.take n)).length = min n rows.length := by
    rw [(sortBy_perm ident _).length_eq, List.length_take]
  have hnew : sortBy ident rows' = sortBy ident (rows.take n) ++ [x] := by
    refine sortBy_eq ?_ (((sortBy_perm ident _).append_right [x]).trans
      (List.perm_append_comm.trans hperm.symm))
    refine List.pairwise_append.mpr ⟨listing_sortBy htake, List.pairwise_singleton _ _, ?_⟩
    intro row hrow row' hrow'
    obtain rfl := List.mem_singleton.mp hrow'
    exact hmax row (List.mem_of_mem_take ((sortBy_perm ident _).mem_iff.mp hrow))
  rw [hnew]
  by_cases hfull : n ≤ rows.length
  · rw [List.take_left' (by omega)]
    cases hz : rows[n]? with
    | none =>
      -- the page is the whole list
      rw [List.getElem?_eq_none_iff] at hz
      rw [List.take_of_length_le (by omega : rows.length ≤ n + 1),
        List.take_of_length_le (by omega : rows.length ≤ n), List.take_of_length_le]
      · simp [hfull]
      · rwa [(sortBy_perm ident _).length_eq]
    | some z =>
      have hsplit : rows.take (n + 1) = rows.take n ++ [z] := by
        rw [List.take_add_one, hz]
        rfl
      have hzident : ((rows.take n ++ [z]).map ident).Nodup := by
        rw [← hsplit]
        exact hident.sublist ((List.take_sublist (n + 1) rows).map ident)
      have hiff := take_sortBy_concat_iff hzident
      rw [List.length_take, Nat.min_eq_left hfull] at hiff
      rw [hsplit, eq_comm, hiff]
      simp [hfull]
  · -- the new row is on the page
    refine iff_of_false ?_ fun h => hfull h.1
    intro heq
    have hmem : x ∈ (sortBy ident (rows.take n) ++ [x]).take n := by
      rw [List.take_of_length_le (by rw [List.length_append, hlen, List.length_singleton]; omega)]
      simp
    rw [heq] at hmem
    have hxrows := List.mem_of_mem_take
      ((sortBy_perm ident _).mem_iff.mp (List.mem_of_mem_take hmem))
    exact lt_irrefl _ (hmax x hxrows)

/-! ## Boundaries -/

/-- More rows than a page holds: the first page, its last row and the row after it. -/
theorem exists_split {n : ℕ} {l : List α} (hn : 0 < n) (h : n < l.length) :
    ∃ page b x after, l = page ++ b :: x :: after ∧ page.length + 1 = n := by
  have hdrop : l.drop (n - 1) = l[n - 1] :: l[n] :: l.drop (n + 1) := by
    rw [List.drop_eq_getElem_cons (by omega), List.cons.injEq]
    refine ⟨rfl, ?_⟩
    rw [show n - 1 + 1 = n by omega, List.drop_eq_getElem_cons h]
  refine ⟨l.take (n - 1), l[n - 1], l[n], l.drop (n + 1), ?_, ?_⟩
  · rw [← hdrop, List.take_append_drop]
  · rw [List.length_take]
    omega

theorem pageBoundary_first {n : ℕ} {page after : List α} {x : α} (hlen : page.length = n) :
    PageBoundary n (page ++ x :: after) page x := ⟨[], after, rfl, hlen, dvd_zero n⟩

theorem Listing.lt_of_pageBoundary {n : ℕ} {page : List α} {x : α} (h : Listing key rows)
    (hboundary : PageBoundary n rows page x) : ∀ b ∈ page, key b < key x := by
  obtain ⟨before, after, rfl, -, -⟩ := hboundary
  intro b hb
  have hpage := (List.pairwise_append.mp h).2.1
  exact (List.pairwise_append.mp hpage).2.2 b hb x List.mem_cons_self

theorem forall_not_pageBoundary_iff {n : ℕ} :
    (∀ page x, ¬ PageBoundary n rows page x) ↔ rows.length ≤ n := by
  constructor
  · intro h
    by_contra hlen
    rw [not_le] at hlen
    apply h (rows.take n) rows[n]
    refine ⟨[], rows.drop (n + 1), ?_, by simp; omega, dvd_zero n⟩
    rw [List.nil_append, ← List.drop_eq_getElem_cons hlen, List.take_append_drop]
  · intro hlen page x hboundary
    obtain ⟨before, after, rfl, hpage, -⟩ := hboundary
    simp only [List.length_append, List.length_cons] at hlen
    omega

/-- The boundaries are the one after the first page and those of the rest. -/
theorem forall_pageBoundary_iff {n : ℕ} {page after : List α} {x : α} (hlen : page.length = n)
    {Q : List α → α → Prop} :
    (∀ page' x', PageBoundary n (page ++ x :: after) page' x' → Q page' x') ↔
      Q page x ∧ ∀ page' x', PageBoundary n (x :: after) page' x' → Q page' x' := by
  constructor
  · intro h
    refine ⟨h page x (pageBoundary_first hlen), fun page' x' hboundary => h page' x' ?_⟩
    obtain ⟨before, after', heq, hpage', hdvd⟩ := hboundary
    refine ⟨page ++ before, after', by rw [heq, List.append_assoc], hpage', ?_⟩
    rw [List.length_append, hlen]
    exact (Nat.dvd_add_right dvd_rfl).mpr hdvd
  · intro ⟨hfirst, hrest⟩ page' x' hboundary
    obtain ⟨before, after', heq, hpage', hdvd⟩ := hboundary
    by_cases hbefore : before = []
    · -- the first page
      rw [hbefore, List.nil_append] at heq
      obtain ⟨rfl, htail⟩ := List.append_inj heq (by omega)
      obtain ⟨rfl, -⟩ := List.cons.inj htail
      exact hfirst
    · -- a later page: the first page lies before it
      have hle : n ≤ before.length :=
        Nat.le_of_dvd (List.length_pos_of_ne_nil hbefore) hdvd
      obtain ⟨l, hl, htail⟩ | ⟨l, hl, htail⟩ := List.append_eq_append_iff.mp heq
      · refine hrest page' x' ⟨l, after', htail, hpage', ?_⟩
        rw [hl, List.length_append, hlen] at hdvd
        exact (Nat.dvd_add_right dvd_rfl).mp hdvd
      · have hnil : l = [] := by
          rw [hl, List.length_append] at hlen
          exact List.length_eq_zero_iff.mp (by omega)
        subst hnil
        refine hrest page' x' ⟨[], after', ?_, hpage', dvd_zero n⟩
        rw [List.nil_append] at htail ⊢
        exact htail.symm

theorem continues_iff {next : α → α → κ} {n : ℕ} {page after : List α} {b x : α}
    (hlen : page.length + 1 = n) :
    Continues key next n (page ++ b :: x :: after) ↔
      (key b ≤ next b x ∧ next b x < key x) ∧ Continues key next n (x :: after) := by
  have hpage : (page ++ [b]).length = n := by simpa using hlen
  have hcontinues : ∀ l : List α, Continues key next n l ↔ ∀ page' x', PageBoundary n l page' x' →
      ∀ l b', page' = l ++ [b'] → key b' ≤ next b' x' ∧ next b' x' < key x' := by
    intro l
    constructor
    · rintro h page' x' hboundary l b' rfl
      exact h l b' x' hboundary
    · intro h l b' x' hboundary
      exact h _ x' hboundary l b' rfl
  rw [hcontinues, hcontinues, show page ++ b :: x :: after = (page ++ [b]) ++ x :: after by simp,
    forall_pageBoundary_iff hpage]
  refine and_congr_left fun _ => ?_
  constructor
  · intro h
    exact h page b rfl
  · intro h l b' heq
    obtain ⟨-, hb⟩ := List.append_inj' heq rfl
    obtain ⟨rfl, -⟩ := List.cons.inj hb
    exact h

/-- The pages are the first one and those of the rest. -/
theorem pagesSorted_iff {n : ℕ} :
    PagesSorted ident n rows ↔
      Listing ident (rows.take n) ∧ PagesSorted ident n (rows.drop n) := by
  constructor
  · intro h
    have htake : (rows.take n).length ≤ n := List.length_take_le n rows
    refine ⟨h [] (rows.take n) (rows.drop n) (by simp) (dvd_zero n) htake, ?_⟩
    intro before page after heq hdvd hlen
    by_cases hshort : rows.length < n
    · have hnil : page = [] := by
        rw [List.drop_eq_nil_of_le hshort.le] at heq
        exact (List.append_eq_nil_iff.mp (List.append_eq_nil_iff.mp heq.symm).2).1
      rw [hnil]
      exact List.Pairwise.nil
    · refine h (rows.take n ++ before) page after ?_ ?_ hlen
      · rw [List.append_assoc, ← heq, List.take_append_drop]
      · rw [List.length_append, List.length_take, Nat.min_eq_left (not_lt.mp hshort)]
        exact (Nat.dvd_add_right dvd_rfl).mpr hdvd
  · intro ⟨hfirst, hrest⟩ before page after heq hdvd hlen
    by_cases hbefore : before = []
    · -- a part of the first page
      rw [hbefore, List.nil_append] at heq
      refine hfirst.sublist ?_
      rw [heq, List.take_append, List.take_of_length_le hlen]
      exact List.sublist_append_left page _
    · have hle : n ≤ before.length := Nat.le_of_dvd (List.length_pos_of_ne_nil hbefore) hdvd
      refine hrest (before.drop n) page after ?_ ?_ hlen
      · rw [heq, List.drop_append_of_le_length hle]
      · rw [List.length_drop]
        exact Nat.dvd_sub hdvd dvd_rfl

theorem pagesSorted_nil {n : ℕ} : PagesSorted ident n ([] : List α) := by
  intro before page after heq _ _
  rw [(List.append_eq_nil_iff.mp (List.append_eq_nil_iff.mp heq.symm).2).1]
  exact List.Pairwise.nil

/-! ## Walks -/

section

variable {next : α → α → κ} {n : ℕ} {cursor : Option κ} {received : List α}

theorem Walk.ne_nil (h : Walk key ident next n rows cursor received) : received ≠ [] := by
  cases h with
  | last hne _ =>
    intro hnil
    exact hne (List.perm_nil.mp (hnil ▸ (sortBy_perm ident _).symm))
  | more _ _ _ => exact List.append_ne_nil_of_right_ne_nil _ (List.cons_ne_nil _ _)

theorem Walk.subset (h : Walk key ident next n rows cursor received) : received ⊆ rows := by
  induction h with
  | last _ _ =>
    intro row hrow
    exact past_subset key _ rows ((sortBy_perm ident _).mem_iff.mp hrow)
  | @more cursor _ _ _ _ _ hfetch _ ih =>
    have hrows : ∀ row ∈ fetch key ident (n + 1) cursor rows, row ∈ rows := fun row hrow =>
      past_subset key cursor rows (mem_past_of_fetch hrow)
    rw [hfetch] at hrows
    refine List.append_subset.mpr ⟨fun row hrow => hrows row (by simp [hrow]), ?_⟩
    exact List.cons_subset.mpr ⟨hrows _ (by simp), ih⟩

/-- A walk starts with one of the first rows beyond its cursor, of which a row that it does not
    receive has no smaller `ident`. -/
theorem Walk.head_le {x : α} (h : Walk key ident next n rows cursor (x :: received)) :
    x ∈ (past key cursor rows).take (n + 1) ∧
      ∀ y ∈ (past key cursor rows).take (n + 1), y ∉ x :: received → ident x ≤ ident y := by
  generalize hreceived : x :: received = l at h
  cases h with
  | last _ hlen =>
    rw [List.take_of_length_le (by omega)]
    refine ⟨(sortBy_perm ident _).mem_iff.mp (hreceived ▸ List.mem_cons_self), ?_⟩
    intro y hy hnot
    exact absurd ((sortBy_perm ident _).mem_iff.mpr hy) hnot
  | @more _ page e z received' _ hfetch _ =>
    have hsorted : (fetch key ident (n + 1) cursor rows).Pairwise fun a b => ident a ≤ ident b :=
      sortBy_pairwise_le ident _
    have hx : x ∈ page ++ [e] := by
      cases page with
      | nil =>
        obtain ⟨rfl, -⟩ := List.cons.inj hreceived
        exact List.mem_singleton_self x
      | cons a page =>
        obtain ⟨rfl, -⟩ := List.cons.inj hreceived
        exact List.mem_cons_self
    rw [hfetch, show page ++ [e, z] = (page ++ [e]) ++ [z] by simp] at hsorted
    have hmem : ∀ y, y ∈ (past key cursor rows).take (n + 1) ↔ y ∈ (page ++ [e]) ++ [z] := by
      intro y
      rw [← (fetch_perm key ident (n + 1) cursor rows).mem_iff, hfetch]
      simp
    refine ⟨(hmem x).mpr (List.mem_append_left _ hx), ?_⟩
    intro y hy hnot
    rcases List.mem_append.mp ((hmem y).mp hy) with hy | hy
    · refine absurd ?_ hnot
      rw [show page ++ e :: received' = (page ++ [e]) ++ received' by simp]
      exact List.mem_append_left _ hy
    · exact (List.pairwise_append.mp hsorted).2.2 x hx y hy

/-- A walk whose rows fit in a page receives them. -/
theorem Walk.of_last (h : Walk key ident next n rows cursor received)
    (hlen : (past key cursor rows).length ≤ n) : received = sortBy ident (past key cursor rows) := by
  cases h with
  | last _ _ => rfl
  | more hlen' _ _ => omega

/-- After a page with a successor, the walk continues at the next cursor. -/
theorem Walk.of_more {page : List α} {e z : α} (h : Walk key ident next n rows cursor received)
    (hlen : n < (past key cursor rows).length)
    (hfetch : fetch key ident (n + 1) cursor rows = page ++ [e, z]) :
    ∃ rest, received = page ++ e :: rest ∧ Walk key ident next n rows (some (next e z)) rest := by
  cases h with
  | last _ hlen' => omega
  | more _ hfetch' hwalk =>
    obtain ⟨hpage, htail⟩ := List.append_inj' (hfetch.symm.trans hfetch') rfl
    obtain ⟨he, htail⟩ := List.cons.inj htail
    obtain ⟨hz, -⟩ := List.cons.inj htail
    rw [hpage, he, hz]
    exact ⟨_, rfl, hwalk⟩

/-- A walk whose first row is `x` continues the listing after `b` if `b` has a smaller `ident`. -/
theorem Walk.past_eq {before after : List α} {b x : α}
    (h : Listing key (before ++ b :: x :: after)) (hlt : ident b < ident x)
    (hwalk : Walk key ident next n (before ++ b :: x :: after) cursor (x :: after)) :
    past key cursor (before ++ b :: x :: after) = x :: after := by
  obtain ⟨hx, hfirst⟩ := hwalk.head_le
  have hnodup := h.nodup
  have hsuffix := h.past_suffix cursor
  have htail : x :: after <:+ before ++ b :: x :: after := ⟨before ++ [b], by simp⟩
  have hxpast := List.mem_of_mem_take hx
  rcases List.suffix_or_suffix_of_suffix hsuffix htail with hsuf | hsuf
  · rcases List.suffix_cons_iff.mp hsuf with heq | hsuf
    · exact heq
    · exact absurd (hsuf.subset hxpast) (List.nodup_cons.mp (hnodup.sublist htail.sublist)).1
  · -- otherwise `b` is before `x` on the first page, but it is not received
    by_contra hne
    have hb : b :: x :: after <:+ past key cursor (before ++ b :: x :: after) := by
      rcases List.suffix_or_suffix_of_suffix hsuffix
        (⟨before, rfl⟩ : b :: x :: after <:+ before ++ b :: x :: after) with hsuf' | hsuf'
      · rcases List.suffix_cons_iff.mp hsuf' with heq | hsuf'
        · rw [heq]
        · exact absurd (hsuf'.eq_of_length_le hsuf.length_le) hne
      · exact hsuf'
    obtain ⟨skipped, hskipped⟩ := hb
    have hbtake : b ∈ (past key cursor (before ++ b :: x :: after)).take (n + 1) := by
      rw [← hskipped] at hx ⊢
      have hnodup' : (skipped ++ b :: x :: after).Nodup := by
        rw [hskipped]
        exact hnodup.sublist hsuffix.sublist
      have hxskipped : x ∉ skipped := fun hmem =>
        (List.nodup_append'.mp hnodup').2.2 hmem (by simp)
      have hlen : skipped.length < n + 1 := by
        by_contra hle
        rw [List.take_append_of_le_length (not_lt.mp hle)] at hx
        exact hxskipped (List.mem_of_mem_take hx)
      rw [List.take_append, List.mem_append]
      refine Or.inr ?_
      rw [show n + 1 - skipped.length = n - skipped.length + 1 by omega, List.take_succ_cons]
      exact List.mem_cons_self
    have hbnot : b ∉ x :: after :=
      (List.nodup_cons.mp (hnodup.sublist (List.sublist_append_right before _))).1
    exact absurd (hfirst b hbtake hbnot) (not_le.mpr hlt)

/-- A walk gives the rows beyond its cursor in their order exactly if there are any, they are
    sorted by `ident` and the cursors continue them. -/
theorem walk_past_iff (hn : 0 < n) (h : Listing key rows) (hident : (rows.map ident).Nodup)
    (cursor : Option κ) :
    Walk key ident next n rows cursor (past key cursor rows) ↔
      past key cursor rows ≠ [] ∧ Listing ident (past key cursor rows) ∧
        Continues key next n (past key cursor rows) := by
  -- by induction on the number of rows beyond the cursor
  generalize hm : (past key cursor rows).length = m
  induction m using Nat.strong_induction_on generalizing cursor with
  | _ m ih =>
    have hnodup : ((past key cursor rows).map ident).Nodup :=
      hident.sublist (List.filter_sublist.map ident)
    by_cases hlen : (past key cursor rows).length ≤ n
    · have hvacuous : Continues key next n (past key cursor rows) := fun page b x hboundary =>
        absurd hboundary (forall_not_pageBoundary_iff.mpr hlen _ x)
      constructor
      · intro hwalk
        refine ⟨hwalk.ne_nil, ?_, hvacuous⟩
        rw [hwalk.of_last hlen]
        exact listing_sortBy hnodup
      · intro ⟨hne, hsorted, _⟩
        have hwalk : Walk key ident next n rows cursor _ := .last hne hlen
        rwa [hsorted.sortBy_eq_self] at hwalk
    · obtain ⟨page, b, x, after, hpast, hpage⟩ := exists_split hn (not_le.mp hlen)
      obtain ⟨before, hrows⟩ := h.past_suffix cursor
      have hrows' : rows = (before ++ page) ++ b :: x :: after := by
        rw [← hrows, hpast, List.append_assoc]
      have htake : (past key cursor rows).take (n + 1) = page ++ [b, x] := by
        rw [hpast, show page ++ b :: x :: after = (page ++ [b, x]) ++ after by simp]
        exact List.take_left' (by simp; omega)
      have hshort : (x :: after).length < m := by
        rw [← hm, hpast]
        simp only [List.length_append, List.length_cons]
        omega
      have hiff : past key (some (next b x)) rows = x :: after ↔
          key b ≤ next b x ∧ next b x < key x := by
        rw [hrows'] at h ⊢
        exact past_eq_iff h
      rw [hpast, continues_iff hpage]
      constructor
      · intro hwalk
        obtain ⟨page', e, z, hfetch, hpage'⟩ := exists_fetch key ident hn (not_le.mp hlen)
        obtain ⟨rest, hreceived, hwalk'⟩ := hwalk.of_more (not_le.mp hlen) hfetch
        obtain ⟨rfl, htail⟩ := List.append_inj hreceived (by omega)
        obtain ⟨rfl, rfl⟩ := List.cons.inj htail
        -- the same rows were fetched, so the row left out is `x`
        have hsorted : Listing ident (fetch key ident (n + 1) cursor rows) := listing_fetch hident _ _
        obtain rfl : x = z := by
          have hperm := fetch_perm key ident (n + 1) cursor rows
          rw [hfetch, htake, List.perm_append_left_iff, List.perm_cons] at hperm
          exact (List.singleton_perm_singleton.mp hperm).symm
        rw [hfetch] at hsorted
        have hlt : ident b < ident x :=
          (List.pairwise_cons.mp (List.pairwise_append.mp hsorted).2.1).1 x (by simp)
        have heq : past key (some (next b x)) rows = x :: after := by
          rw [hrows'] at h hwalk' ⊢
          exact hwalk'.past_eq h hlt
        obtain ⟨-, hrest, hcontinues⟩ :=
          (ih _ hshort (some (next b x)) (by rw [heq])).mp (by rw [heq]; exact hwalk')
        rw [heq] at hrest hcontinues
        refine ⟨List.append_ne_nil_of_right_ne_nil _ (List.cons_ne_nil _ _), ?_, hiff.mp heq,
          hcontinues⟩
        -- the first rows and the rest overlap in `x`
        rw [show page ++ [b, x] = (page ++ [b]) ++ [x] by simp] at hsorted
        obtain ⟨hfirst, -, hlast⟩ := List.pairwise_append.mp hsorted
        rw [show page ++ b :: x :: after = (page ++ [b]) ++ x :: after by simp]
        refine List.pairwise_append.mpr ⟨hfirst, hrest, ?_⟩
        intro row hrow row' hrow'
        have hrowx := hlast row hrow x (by simp)
        rcases List.mem_cons.mp hrow' with rfl | hrow'
        · exact hrowx
        · exact hrowx.trans ((List.pairwise_cons.mp hrest).1 row' hrow')
      · intro ⟨_, hsorted, hfirst, hrest⟩
        have heq := hiff.mpr hfirst
        have hsorted' : Listing ident (x :: after) :=
          hsorted.sublist ((List.sublist_cons_self b _).trans (List.sublist_append_right page _))
        have hwalk := (ih _ hshort (some (next b x)) (by rw [heq])).mpr
          (by rw [heq]; exact ⟨List.cons_ne_nil _ _, hsorted', hrest⟩)
        rw [heq] at hwalk
        refine .more (not_le.mp hlen) ?_ hwalk
        rw [fetch, htake]
        refine Listing.sortBy_eq_self (hsorted.sublist ?_)
        exact List.Sublist.append_left (by simp) page

/-- A walk without a cursor gives all rows in their order exactly if they are sorted by `ident`
    and the cursors continue them. -/
theorem walk_rows_iff (next : α → α → κ) (hn : 0 < n) (h : Listing key rows)
    (hident : (rows.map ident).Nodup) :
    Walk key ident next n rows none rows ↔
      rows ≠ [] ∧ Listing ident rows ∧ Continues key next n rows := by
  have hpast : Walk key ident next n rows none (past key none rows) ↔ _ :=
    walk_past_iff hn h hident none
  rwa [past_none] at hpast

end

/-! ## Cursors of the row left out -/

section

variable {cut : α → κ} {n : ℕ} {cursor : Option κ} {received : List α}

/-- The cursors of a walk do not go back. -/
def Advances (key : α → κ) (ident : α → ι) (cut : α → κ) (n : ℕ) (rows : List α) : Prop :=
  ∀ x page e z received, n < (past key (some (cut x)) rows).length →
    fetch key ident (n + 1) (some (cut x)) rows = page ++ [e, z] →
      Walk key ident (fun _ => cut) n rows (some (cut z)) received → cut x ≤ cut z

/-- Rows beyond the next cursor are beyond the one before. -/
theorem Advances.past_subset (hadv : Advances key ident cut n rows)
    (hcursor : ∀ c ∈ cursor, ∃ x, c = cut x) {page : List α} {e z : α}
    (hlen : n < (past key cursor rows).length)
    (hfetch : fetch key ident (n + 1) cursor rows = page ++ [e, z])
    (hwalk : Walk key ident (fun _ => cut) n rows (some (cut z)) received) :
    past key (some (cut z)) rows ⊆ past key cursor rows := by
  cases cursor with
  | none =>
    rw [past_none]
    exact Common.past_subset key _ rows
  | some c =>
    obtain ⟨x, rfl⟩ := hcursor c rfl
    intro row hrow
    obtain ⟨hmem, hlt⟩ := mem_past_some.mp hrow
    exact mem_past_some.mpr ⟨hmem, (hadv x page e z received hlen hfetch hwalk).trans_lt hlt⟩

/-- What a walk receives lies beyond its cursor. -/
theorem Walk.subset_past (hadv : Advances key ident cut n rows)
    (h : Walk key ident (fun _ => cut) n rows cursor received)
    (hcursor : ∀ c ∈ cursor, ∃ x, c = cut x) : received ⊆ past key cursor rows := by
  induction h with
  | last _ _ => exact fun row hrow => (sortBy_perm ident _).mem_iff.mp hrow
  | @more cursor page e z received hlen hfetch hwalk ih =>
    have hpage : ∀ row ∈ fetch key ident (n + 1) cursor rows, row ∈ past key cursor rows :=
      fun row hrow => mem_past_of_fetch hrow
    have hnext : ∀ c ∈ some (cut z), ∃ x, c = cut x := fun c hc => ⟨z, (Option.some.inj hc).symm⟩
    rw [hfetch] at hpage
    refine List.append_subset.mpr ⟨fun row hrow => hpage row (by simp [hrow]), ?_⟩
    refine List.cons_subset.mpr ⟨hpage e (by simp), fun row hrow => ?_⟩
    exact hadv.past_subset hcursor hlen hfetch hwalk (ih hnext hrow)

/-- If every row is received once, the row left out is the next one after the page, and the rest
    of the walk starts with it. -/
theorem Walk.next_eq (hadv : Advances key ident cut n rows) (h : Listing key rows)
    (hident : (rows.map ident).Nodup) (hcursor : ∀ c ∈ cursor, ∃ x, c = cut x) {page : List α}
    {e z : α} (hlen : n < (past key cursor rows).length)
    (hfetch : fetch key ident (n + 1) cursor rows = page ++ [e, z])
    (hwalk : Walk key ident (fun _ => cut) n rows (some (cut z)) received)
    (hperm : (page ++ e :: received).Perm (past key cursor rows)) :
    ∃ first after, past key cursor rows = first ++ z :: after ∧ first.Perm (page ++ [e]) ∧
      past key (some (cut z)) rows = z :: after := by
  obtain ⟨htake, hlt⟩ := fetch_spec hident hfetch
  have hnext : ∀ c ∈ some (cut z), ∃ x, c = cut x := fun c hc => ⟨z, (Option.some.inj hc).symm⟩
  have hreceived := hwalk.subset_past hadv hnext
  have hback := hadv.past_subset hcursor hlen hfetch hwalk
  have hnodup := (h.past cursor).nodup
  have hsuffix : past key (some (cut z)) rows <:+ past key cursor rows := h.past_suffix_past hback
  rw [show page ++ e :: received = (page ++ [e]) ++ received by simp] at hperm
  have hdisjoint := (List.nodup_append'.mp (hperm.nodup_iff.mpr hnodup))
  -- the row left out is still to be received
  have hz : z ∈ received := by
    have hmem : z ∈ (page ++ [e]) ++ received :=
      hperm.mem_iff.mpr (List.mem_of_mem_take ((htake z).mpr (Or.inr rfl)))
    refine (List.mem_append.mp hmem).resolve_left fun hpage => ?_
    exact lt_irrefl _ (hlt z hpage)
  -- no row of the page is beyond its cursor
  have hbehind : ∀ y ∈ page ++ [e], y ∉ past key (some (cut z)) rows := by
    intro y hy hypast
    have hynot : y ∉ received := hdisjoint.2.2 hy
    have hytake := mem_take_of_suffix hsuffix hnodup ((htake y).mpr (Or.inl hy)) hypast
    have hztake := mem_take_of_suffix hsuffix hnodup ((htake z).mpr (Or.inr rfl)) (hreceived hz)
    generalize hc : some (cut z) = c at hwalk hytake hztake hypast
    cases hwalk with
    | last _ _ => exact hynot ((sortBy_perm ident _).mem_iff.mpr hypast)
    | @more _ page' e' z' received' _ hfetch' _ =>
      -- otherwise it would be the row left out of the next page, where `z` has a greater `ident`
      obtain ⟨htake', hlt'⟩ := fetch_spec hident hfetch'
      have hpage' : ∀ row ∈ page' ++ [e'], row ∈ page' ++ e' :: received' := by
        intro row hrow
        rw [show page' ++ e' :: received' = (page' ++ [e']) ++ received' by simp]
        exact List.mem_append_left _ hrow
      have hyz' : y = z' := ((htake' y).mp hytake).resolve_left fun hmem => hynot (hpage' y hmem)
      rcases (htake' z).mp hztake with hmem | heq
      · exact lt_asymm (hlt y hy) (hyz' ▸ hlt' z hmem)
      · rw [heq, ← hyz'] at hlt
        exact lt_irrefl _ (hlt y hy)
  obtain ⟨first, hfirst⟩ := hsuffix
  rw [← hfirst] at hnodup htake hperm
  have hsub : (page ++ [e]).Subperm first := by
    refine List.subperm_of_subset hdisjoint.1 fun y hy => ?_
    have hmem := List.mem_of_mem_take ((htake y).mpr (Or.inl hy))
    exact (List.mem_append.mp hmem).resolve_right (hbehind y hy)
  have hpage : (page ++ [e]).length = n := by
    have hfetched := (fetch_perm key ident (n + 1) cursor rows).length_eq
    rw [hfetch, List.length_take] at hfetched
    simp only [List.length_append, List.length_cons, List.length_nil] at hfetched ⊢
    omega
  have hztake : z ∈ (past key (some (cut z)) rows).take (n + 1 - first.length) := by
    have hmem := (htake z).mpr (Or.inr rfl)
    rw [List.take_append, List.mem_append] at hmem
    refine hmem.resolve_left fun hzfirst => ?_
    exact (List.nodup_append'.mp hnodup).2.2 (List.mem_of_mem_take hzfirst) (hreceived hz)
  have hlength : first.length = n := by
    have hle := hsub.length_le
    have hpos := List.length_pos_of_mem hztake
    rw [List.length_take] at hpos
    omega
  rw [hlength, show n + 1 - n = 1 by omega] at hztake
  obtain ⟨after, hafter⟩ : ∃ after, past key (some (cut z)) rows = z :: after := by
    cases hpast : past key (some (cut z)) rows with
    | nil =>
      rw [hpast] at hztake
      exact absurd hztake List.not_mem_nil
    | cons x after =>
      rw [hpast] at hztake
      obtain rfl : z = x := by simpa using hztake
      exact ⟨after, rfl⟩
  refine ⟨first, after, by rw [← hfirst, hafter], ?_, hafter⟩
  exact (hsub.perm_of_length_le (by omega)).symm

/-- A walk that receives every row beyond its cursor once continues the pages. -/
theorem Walk.continuesPages (hadv : Advances key ident cut n rows) (h : Listing key rows)
    (hident : (rows.map ident).Nodup)
    (hwalk : Walk key ident (fun _ => cut) n rows cursor received)
    (hcursor : ∀ c ∈ cursor, ∃ x, c = cut x) (hperm : received.Perm (past key cursor rows)) :
    ContinuesPages key ident cut n (past key cursor rows) := by
  induction hwalk with
  | last _ hlen =>
    intro page x hboundary
    exact absurd hboundary (forall_not_pageBoundary_iff.mpr hlen page x)
  | @more cursor page e z received hlen hfetch hwalk ih =>
    obtain ⟨first, after, hpast, hfirst, hrest⟩ :=
      hwalk.next_eq hadv h hident hcursor hlen hfetch hperm
    have hnext : ∀ c ∈ some (cut z), ∃ x, c = cut x := fun c hc => ⟨z, (Option.some.inj hc).symm⟩
    have hpage : first.length = n := by
      have hfetched := (fetch_perm key ident (n + 1) cursor rows).length_eq
      rw [hfetch, List.length_take] at hfetched
      rw [hfirst.length_eq]
      simp only [List.length_append, List.length_cons, List.length_nil] at hfetched ⊢
      omega
    have hnodup := (h.past cursor).nodup
    obtain ⟨-, hlt⟩ := fetch_spec hident hfetch
    have hrestPerm : received.Perm (past key (some (cut z)) rows) := by
      rw [hpast, ← hrest, show page ++ e :: received = (page ++ [e]) ++ received by simp] at hperm
      exact (List.perm_append_left_iff _).mp (hperm.trans (hfirst.append_right _))
    have hcontinues := ih hnext hrestPerm
    rw [hpast] at hnodup ⊢
    rw [hrest] at hcontinues
    refine (forall_pageBoundary_iff hpage).mpr ⟨⟨?_, ?_⟩, hcontinues⟩
    · intro row hrow
      refine ⟨hlt row (hfirst.mem_iff.mp hrow), ?_⟩
      by_contra hnot
      have hmem : row ∈ past key (some (cut z)) rows := by
        refine mem_past_some.mpr ⟨?_, not_le.mp hnot⟩
        exact past_subset key cursor rows (hpast ▸ List.mem_append_left _ hrow)
      rw [hrest] at hmem
      exact (List.nodup_append'.mp hnodup).2.2 hrow hmem
    · exact (mem_past_some.mp (hrest ▸ List.mem_cons_self)).2

/-- If the pages are continued, there is a walk that receives every row once. -/
theorem exists_walk (hn : 0 < n) (h : Listing key rows) (hident : (rows.map ident).Nodup)
    (hne : past key cursor rows ≠ [])
    (hcontinues : ContinuesPages key ident cut n (past key cursor rows)) :
    ∃ received, Walk key ident (fun _ => cut) n rows cursor received ∧
      received.Perm (past key cursor rows) := by
  -- by induction on the number of rows beyond the cursor
  generalize hm : (past key cursor rows).length = m
  induction m using Nat.strong_induction_on generalizing cursor with
  | _ m ih =>
    by_cases hlen : (past key cursor rows).length ≤ n
    · exact ⟨_, .last hne hlen, sortBy_perm ident _⟩
    · obtain ⟨first, b, x, after, hpast, hfirst⟩ := exists_split hn (not_le.mp hlen)
      have hpage : (first ++ [b]).length = n := by simpa using hfirst
      have hsplit : past key cursor rows = (first ++ [b]) ++ x :: after := by rw [hpast]; simp
      rw [hsplit] at hcontinues
      obtain ⟨⟨hrow, hx⟩, hrest⟩ := (forall_pageBoundary_iff hpage).mp hcontinues
      -- `x` is left out, and its cursor continues the listing
      have hnodup : ((first ++ [b]).map ident).Nodup := by
        have hsublist : ((first ++ [b]) ++ x :: after).Sublist rows := hsplit ▸ List.filter_sublist
        exact hident.sublist (((List.sublist_append_left _ _).trans hsublist).map ident)
      have hfetch : fetch key ident (n + 1) cursor rows = sortBy ident (first ++ [b]) ++ [x] := by
        rw [fetch, hsplit, ← sortBy_append_singleton hnodup fun row hmem => (hrow row hmem).1]
        congr 1
        rw [show (first ++ [b]) ++ x :: after = ((first ++ [b]) ++ [x]) ++ after by simp]
        exact List.take_left' (by rw [List.length_append, hpage]; rfl)
      obtain ⟨page, e, hsort, -⟩ := exists_last_sortBy hnodup (by simp)
      obtain ⟨before, hrows⟩ := h.past_suffix cursor
      have hbeyond : past key (some (cut x)) rows = x :: after := by
        have hrows' : rows = (before ++ first) ++ b :: x :: after := by
          rw [← hrows, hpast, List.append_assoc]
        rw [hrows'] at h ⊢
        exact (past_eq_iff h).mpr ⟨(hrow b (by simp)).2, hx⟩
      have hshort : (x :: after).length < m := by
        rw [← hm, hpast]
        simp only [List.length_append, List.length_cons]
        omega
      obtain ⟨received, hwalk, hperm⟩ := ih _ hshort
        (by rw [hbeyond]; exact List.cons_ne_nil _ _) (by rw [hbeyond]; exact hrest)
        (by rw [hbeyond])
      rw [hsort] at hfetch
      refine ⟨page ++ e :: received, .more (not_le.mp hlen) (by rw [hfetch]; simp) hwalk, ?_⟩
      rw [hsplit, show page ++ e :: received = (page ++ [e]) ++ received by simp]
      refine List.Perm.append ?_ (hbeyond ▸ hperm)
      rw [← hsort]
      exact sortBy_perm ident _

/-- A walk without a cursor receives every row once exactly if the pages are continued. -/
theorem walk_perm_iff (hn : 0 < n) (h : Listing key rows) (hident : (rows.map ident).Nodup)
    (hadv : Advances key ident cut n rows) :
    (∃ received, Walk key ident (fun _ => cut) n rows none received ∧ received.Perm rows) ↔
      rows ≠ [] ∧ ContinuesPages key ident cut n rows := by
  have hnone : past key none rows = rows := past_none key rows
  constructor
  · intro ⟨received, hwalk, hperm⟩
    have hcontinues := hwalk.continuesPages hadv h hident (by simp) (by rwa [hnone])
    rw [hnone] at hcontinues
    refine ⟨fun hnil => hwalk.ne_nil ?_, hcontinues⟩
    rw [hnil] at hperm
    exact List.perm_nil.mp hperm
  · intro ⟨hne, hcontinues⟩
    obtain ⟨received, hwalk, hperm⟩ := exists_walk hn h hident
      (by rwa [hnone]) (by rwa [hnone])
    exact ⟨received, hwalk, hnone ▸ hperm⟩

end

end Shortener.Common
