import Shortener.Common.Keyset

/-!
# Walking a listing while it changes

Each page is taken from the rows as they are then, in the order of `ident`, and the key of its
last row is the next cursor. Rows may come, go and change their keys between two pages.

* `LiveWalk.reached`: what never moves forward is received.
-/

namespace Shortener.Common

variable {α κ ι : Type} [LinearOrder κ] [LinearOrder ι] {key : α → κ} {ident : α → ι} {n : ℕ}
  {cursor : Option κ} {tables : List (List α)} {received : List α} {p : α → Prop}

/-- A walk from `cursor`, over the rows as they are at each of its pages, up to a page without
    rows. -/
inductive LiveWalk (key : α → κ) (ident : α → ι) (n : ℕ) :
    Option κ → List (List α) → List α → Prop
  | last {cursor : Option κ} {rows : List α} {later : List (List α)} :
      past key cursor rows = [] → LiveWalk key ident n cursor (rows :: later) []
  | more {cursor : Option κ} {rows page received : List α} {b : α} {later : List (List α)} :
      fetch key ident n cursor rows = page ++ [b] →
        LiveWalk key ident n (some (key b)) later received →
          LiveWalk key ident n cursor (rows :: later) (page ++ b :: received)

/-- A row that is not on a page lies beyond the rows of the page. -/
theorem Listing.lt_of_not_fetched {rows : List α} (hrows : Listing key rows) {row b : α}
    (hrow : row ∈ Common.past key cursor rows) (hnot : row ∉ fetch key ident n cursor rows)
    (hb : b ∈ fetch key ident n cursor rows) : key b < key row := by
  have hsorted := hrows.past cursor
  rw [← List.take_append_drop n (Common.past key cursor rows)] at hrow hsorted
  have hdrop : row ∈ (Common.past key cursor rows).drop n :=
    (List.mem_append.mp hrow).resolve_left fun hmem => hnot (mem_fetch.mpr hmem)
  exact (List.pairwise_append.mp hsorted).2.2 b (mem_fetch.mp hb) row hdrop

/-- **What never moves forward is reached.** There are always rows with `p`, and their keys only
    grow. -/
theorem LiveWalk.reached (h : LiveWalk key ident n cursor tables received)
    (htables : ∀ rows ∈ tables, Listing key rows) (hthere : ∀ rows ∈ tables, ∃ row ∈ rows, p row)
    (hmoves : tables.Pairwise fun rows rows' =>
      ∀ row ∈ rows, ∀ row' ∈ rows', p row → p row' → key row ≤ key row')
    (hcursor : ∀ rows ∈ tables, ∀ row ∈ rows, p row → ∀ c ∈ cursor, c < key row) :
    ∃ row ∈ received, p row := by
  induction h with
  | @last cursor rows later hnil =>
    obtain ⟨row, hrow, hp⟩ := hthere rows List.mem_cons_self
    have hmem := mem_past.mpr ⟨hrow, hcursor rows List.mem_cons_self row hrow hp⟩
    rw [hnil] at hmem
    exact absurd hmem List.not_mem_nil
  | @more cursor rows page received b later hpage _ ih =>
    obtain ⟨hnext, hlater⟩ := List.pairwise_cons.mp hmoves
    obtain ⟨row, hrow, hp⟩ := hthere rows List.mem_cons_self
    have hmem := mem_past.mpr ⟨hrow, hcursor rows List.mem_cons_self row hrow hp⟩
    by_cases hfetched : row ∈ fetch key ident n cursor rows
    · refine ⟨row, ?_, hp⟩
      rw [hpage] at hfetched
      rw [List.append_cons]
      exact List.mem_append_left _ hfetched
    · -- the row lies beyond the cursor of the page, and so do the later ones
      have hlt : key b < key row :=
        (htables rows List.mem_cons_self).lt_of_not_fetched hmem hfetched (by rw [hpage]; simp)
      obtain ⟨row', hrow', hp'⟩ := ih (fun rows' hrows' => htables rows' (List.mem_cons_of_mem _ hrows'))
        (fun rows' hrows' => hthere rows' (List.mem_cons_of_mem _ hrows')) hlater
        (fun rows' hrows' row' hrow' hp' c hc => by
          obtain rfl := Option.some.inj hc
          exact hlt.trans_le (hnext rows' hrows' row hrow row' hrow' hp hp'))
      exact ⟨row', by rw [List.append_cons]; exact List.mem_append_right _ hrow', hp'⟩

end Shortener.Common
