import Mathlib

/-!
# Outcomes of C# code and its integers

* `Exec α`: a call returns a value, throws an exception, or never returns.
* `Exn`: the exceptions the modelled code throws. `RpcException` carries the
  status that `Grpc.StatusProto` packs into it: a code, a message and a detail.
* `toInt32`, `toInt64`: two's complement wrap-around of unchecked arithmetic on
  `int` and `long`, which are modelled as `ℤ`.
-/

namespace Shortener.DotNet

/-! ## Exceptions and outcomes -/

/-- The gRPC status codes the modelled code uses, and the numbers of the others. -/
inductive Code
  | invalidArgument
  | notFound
  | resourceExhausted
  | outOfRange
  | failedPrecondition
  | unauthenticated
  | permissionDenied
  | unavailable
  | unknown
  | other (code : ℤ)
  deriving DecidableEq, Repr

/-- The message packed into the details of a status. -/
inductive Detail
  | resourceInfo (resourceName : String)
  | quotaFailure (subject : String)
  | badRequest (field : String)
  | preconditionFailure (type : String)
  | errorInfo (metadata : List (Σ _ : String, String))
  | debugInfo (detail : String)
  deriving DecidableEq, Repr

/-- `Google.Rpc.Status`. -/
structure Status where
  code : Code
  message : String
  detail : Detail
  deriving DecidableEq, Repr

/-- The exceptions that the code throws or meets. -/
inductive Exn
  | argument (message : String) (paramName : Option String)
  | argumentOutOfRange (paramName : String) (message : String)
  | format (message : String)
  | json (message : String)
  | postgres (sqlState : String) (message : String)
  | rpc (status : Status)
  | graphQL (message : String)
  deriving DecidableEq, Repr

/-- The outcome of a C# call. -/
inductive Exec (α : Type)
  | ret (a : α)
  | throw (e : Exn)
  | diverge
  deriving DecidableEq, Repr

namespace Exec

variable {α β : Type}

protected def bind (x : Exec α) (f : α → Exec β) : Exec β :=
  match x with
  | ret a => f a
  | throw e => throw e
  | diverge => diverge

instance : Monad Exec where
  pure := ret
  bind := Exec.bind

@[simp] theorem pure_eq (a : α) : (pure a : Exec α) = ret a := rfl

@[simp] theorem ret_bind (a : α) (f : α → Exec β) : (ret a >>= f) = f a := rfl

@[simp] theorem throw_bind (e : Exn) (f : α → Exec β) : (throw e >>= f) = throw e := rfl

@[simp] theorem diverge_bind (f : α → Exec β) : (diverge >>= f) = diverge := rfl

instance : LawfulMonad Exec :=
  LawfulMonad.mk' _ (fun x => by cases x <;> rfl) (fun _ _ => rfl) (fun x _ _ => by cases x <;> rfl)

theorem bind_eq_ret_iff {x : Exec α} {f : α → Exec β} {b : β} :
    (x >>= f) = ret b ↔ ∃ a, x = ret a ∧ f a = ret b := by
  cases x <;> simp

theorem map_eq_ret_iff {x : Exec α} {f : α → β} {b : β} :
    (f <$> x) = ret b ↔ ∃ a, x = ret a ∧ f a = b := by
  cases x <;> simp [map_eq_pure_bind]

/-- The call returns. -/
def Returns (x : Exec α) : Prop := ∃ a, x = ret a

instance (x : Exec α) : Decidable x.Returns :=
  match x with
  | ret a => isTrue ⟨a, rfl⟩
  | throw _ => isFalse (by simp [Returns])
  | diverge => isFalse (by simp [Returns])

@[simp] theorem returns_ret (a : α) : (ret a).Returns := ⟨a, rfl⟩

@[simp] theorem not_returns_throw (e : Exn) : ¬ (throw e : Exec α).Returns := by simp [Returns]

@[simp] theorem not_returns_diverge : ¬ (diverge : Exec α).Returns := by simp [Returns]

theorem returns_bind {x : Exec α} {f : α → Exec β} :
    (x >>= f).Returns ↔ ∃ a, x = ret a ∧ (f a).Returns := by
  cases x <;> simp

/-- What the call returns, if it does. -/
def getD (x : Exec α) (default : α) : α :=
  match x with
  | ret a => a
  | throw _ => default
  | diverge => default

@[simp] theorem getD_ret (a default : α) : (ret a).getD default = a := rfl

theorem Returns.eq_getD {x : Exec α} (h : x.Returns) (default : α) : x = ret (x.getD default) := by
  obtain ⟨a, rfl⟩ := h
  rfl

theorem mapM_eq_ret_iff {f : α → Exec β} {l : List α} {bs : List β} :
    l.mapM f = ret bs ↔ List.Forall₂ (fun a b => f a = ret b) l bs := by
  induction l generalizing bs with
  | nil => cases bs <;> simp
  | cons a l ih =>
    rw [List.mapM_cons, bind_eq_ret_iff, List.forall₂_cons_left_iff]
    apply exists_congr
    intro b
    rw [bind_eq_ret_iff, ← exists_and_left]
    apply exists_congr
    intro bs'
    rw [ih, pure_eq, ret.injEq, @eq_comm _ (b :: bs')]

theorem mem_of_mapM {f : α → Exec β} {l : List α} {bs : List β} (h : l.mapM f = ret bs) {b : β}
    (hb : b ∈ bs) : ∃ a ∈ l, f a = ret b := by
  have hrel := mapM_eq_ret_iff.mp h
  clear h
  induction hrel with
  | nil => cases hb
  | @cons a b' l bs hab _ ih =>
    rcases List.mem_cons.mp hb with rfl | hb
    · exact ⟨a, List.mem_cons_self, hab⟩
    · obtain ⟨a', ha', hab'⟩ := ih hb
      exact ⟨a', List.mem_cons_of_mem a ha', hab'⟩

theorem mapM_returns_iff {f : α → Exec β} {l : List α} :
    (l.mapM f).Returns ↔ ∀ a ∈ l, (f a).Returns := by
  induction l with
  | nil => simp
  | cons a l ih =>
    rw [List.mapM_cons, returns_bind, List.forall_mem_cons, ← ih]
    constructor
    · rintro ⟨b, hb, h⟩
      obtain ⟨bs, hbs, -⟩ := returns_bind.mp h
      exact ⟨⟨b, hb⟩, bs, hbs⟩
    · rintro ⟨⟨b, hb⟩, bs, hbs⟩
      exact ⟨b, hb, returns_bind.mpr ⟨bs, hbs, by simp⟩⟩

theorem foldlM_cons_eq_ret_iff {f : β → α → Exec β} {a : α} {l : List α} {b c : β} :
    (a :: l).foldlM f b = ret c ↔ ∃ b', f b a = ret b' ∧ l.foldlM f b' = ret c := by
  rw [List.foldlM_cons, bind_eq_ret_iff]

theorem foldlM_congr {f g : β → α → Exec β} {l : List α} (h : ∀ a ∈ l, ∀ b, f b a = g b a)
    (b : β) : l.foldlM f b = l.foldlM g b := by
  induction l generalizing b with
  | nil => rfl
  | cons a l ih =>
    rw [List.foldlM_cons, List.foldlM_cons, h a List.mem_cons_self b]
    congr 1
    funext b'
    exact ih (fun x hx => h x (List.mem_cons_of_mem a hx)) b'

/-- What every iteration preserves holds after a loop that returns. -/
theorem foldlM_invariant {P : β → Prop} {f : β → α → Exec β} {l : List α} {b c : β}
    (h : l.foldlM f b = ret c) (h0 : P b)
    (hstep : ∀ a ∈ l, ∀ b b', P b → f b a = ret b' → P b') : P c := by
  induction l generalizing b with
  | nil =>
    obtain rfl := Exec.ret.inj h
    exact h0
  | cons a l ih =>
    obtain ⟨b', hb, hl⟩ := foldlM_cons_eq_ret_iff.mp h
    exact ih hl (hstep a List.mem_cons_self b b' h0 hb) fun x hx =>
      hstep x (List.mem_cons_of_mem a hx)

/-- A loop that returns is simulated by one whose iterations simulate its iterations. -/
theorem foldlM_simulation {β' : Type} {R : β → β' → Prop} {f : β → α → Exec β}
    {g : β' → α → Exec β'} {l : List α} {b c : β} {d : β'} (h : l.foldlM f b = ret c) (h0 : R b d)
    (hstep : ∀ a ∈ l, ∀ b d c, R b d → f b a = ret c → ∃ e, g d a = ret e ∧ R c e) :
    ∃ e, l.foldlM g d = ret e ∧ R c e := by
  induction l generalizing b d with
  | nil =>
    obtain rfl := Exec.ret.inj h
    exact ⟨d, rfl, h0⟩
  | cons a l ih =>
    obtain ⟨b₁, hb, hl⟩ := foldlM_cons_eq_ret_iff.mp h
    obtain ⟨d₁, hd, hR⟩ := hstep a List.mem_cons_self b d b₁ h0 hb
    obtain ⟨e, hl', hc⟩ := ih hl hR fun x hx => hstep x (List.mem_cons_of_mem a hx)
    exact ⟨e, foldlM_cons_eq_ret_iff.mpr ⟨d₁, hd, hl'⟩, hc⟩

/-- A loop returns when the outcome of no iteration depends on the earlier ones. -/
theorem foldlM_returns_iff {ok : α → Prop} {f : β → α → Exec β} {l : List α}
    (h : ∀ a ∈ l, ∀ b, (f b a).Returns ↔ ok a) (b : β) :
    (l.foldlM f b).Returns ↔ ∀ a ∈ l, ok a := by
  induction l generalizing b with
  | nil => simp
  | cons a l ih =>
    have ih' := fun b => ih (fun x hx => h x (List.mem_cons_of_mem a hx)) b
    rw [List.foldlM_cons, returns_bind, List.forall_mem_cons, ← h a List.mem_cons_self b]
    constructor
    · rintro ⟨b', hb, hl⟩
      exact ⟨⟨b', hb⟩, (ih' b').mp hl⟩
    · rintro ⟨⟨b', hb⟩, hl⟩
      exact ⟨b', hb, (ih' b').mpr hl⟩

end Exec

/-! ## `int` and `long` -/

/-- The value of `x` as an `int` in an unchecked context. -/
def toInt32 (x : ℤ) : ℤ := x.bmod (2 ^ 32)

/-- The value of `x` as a `long` in an unchecked context. -/
def toInt64 (x : ℤ) : ℤ := x.bmod (2 ^ 64)

/-- `x` is an `int`. -/
def IsInt32 (x : ℤ) : Prop := -2 ^ 31 ≤ x ∧ x < 2 ^ 31

/-- `x` is a `long`. -/
def IsInt64 (x : ℤ) : Prop := -2 ^ 63 ≤ x ∧ x < 2 ^ 63

instance (x : ℤ) : Decidable (IsInt32 x) := inferInstanceAs (Decidable (_ ∧ _))

instance (x : ℤ) : Decidable (IsInt64 x) := inferInstanceAs (Decidable (_ ∧ _))

theorem toInt32_of_isInt32 {x : ℤ} (h : IsInt32 x) : toInt32 x = x := by
  unfold IsInt32 at h
  exact Int.bmod_eq_of_le (by push_cast; omega) (by push_cast; omega)

theorem toInt64_of_isInt64 {x : ℤ} (h : IsInt64 x) : toInt64 x = x := by
  unfold IsInt64 at h
  exact Int.bmod_eq_of_le (by push_cast; omega) (by push_cast; omega)

theorem isInt32_toInt32 (x : ℤ) : IsInt32 (toInt32 x) := by
  have h1 := Int.le_bmod (x := x) (m := 2 ^ 32) (by norm_num)
  have h2 := Int.bmod_lt (x := x) (m := 2 ^ 32) (by norm_num)
  unfold toInt32 IsInt32
  omega

theorem toInt32_add_toInt32 (x y : ℤ) : toInt32 (toInt32 x + y) = toInt32 (x + y) := by
  unfold toInt32
  exact Int.bmod_add_bmod

end Shortener.DotNet
