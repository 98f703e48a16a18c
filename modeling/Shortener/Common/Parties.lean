import Mathlib

/-!
# Lists of parties

A state may hold its parties in a list: requests in progress, tasks, visitors. A step picks
one of them by its place, and changes or removes it.

* `perm_eraseIdx`, `perm_set`: up to their order, the parties are the one that is picked and
  the others.
* `countP_set`, `countP_eraseIdx`: how many satisfy something, before and after.
-/

namespace Shortener.Common

variable {α β : Type} {l : List α} {i : ℕ} {a : α}

theorem perm_eraseIdx (h : l[i]? = some a) : l.Perm (a :: l.eraseIdx i) := by
  obtain ⟨hlt, rfl⟩ := List.getElem?_eq_some_iff.mp h
  exact (List.getElem_cons_eraseIdx_perm hlt).symm

theorem perm_set (h : l[i]? = some a) (b : α) : (l.set i b).Perm (b :: l.eraseIdx i) :=
  List.set_perm_cons_eraseIdx (List.getElem?_eq_some_iff.mp h).1 b

theorem countP_cons' (a : α) (l : List α) (p : α → Bool) :
    (a :: l).countP p = l.countP p + (p a).toNat := by
  rw [List.countP_cons]
  cases p a <;> rfl

theorem countP_singleton' (a : α) (p : α → Bool) : [a].countP p = (p a).toNat := by
  rw [countP_cons', List.countP_nil, Nat.zero_add]

theorem countP_set (h : l[i]? = some a) (b : α) (p : α → Bool) :
    (l.set i b).countP p + (p a).toNat = l.countP p + (p b).toNat := by
  rw [(perm_set h b).countP_eq, (perm_eraseIdx h).countP_eq, countP_cons', countP_cons']
  omega

theorem countP_eraseIdx (h : l[i]? = some a) (p : α → Bool) :
    (l.eraseIdx i).countP p + (p a).toNat = l.countP p := by
  rw [(perm_eraseIdx h).countP_eq, countP_cons']

theorem flatMap_eraseIdx (h : l[i]? = some a) (f : α → List β) :
    (l.flatMap f).Perm (f a ++ (l.eraseIdx i).flatMap f) :=
  (perm_eraseIdx h).flatMap_right f

theorem flatMap_set (h : l[i]? = some a) (b : α) (f : α → List β) :
    ((l.set i b).flatMap f).Perm (f b ++ (l.eraseIdx i).flatMap f) :=
  (perm_set h b).flatMap_right f

end Shortener.Common
