import Shortener.Links.Frontend

/-!
# Only the owner changes a link

Frontends and shards. A request of a frontend may reach its shard late, again, or never,
and the calls of a shard run their statements in any order.

* `inv_run`: every call in progress comes from a request of a client.
* `owner_changes`: a step that changes or deletes a link belongs to a request whose token
  is of the owner.
-/

namespace Shortener.Links

open Shortener.Common Shortener.DotNet Shortener.Codec

/-! ## Shards -/

/-- A request on its way to a shard, with the `sub` of the token it was made with. -/
structure Message where
  sub : String
  shard : ℤ
  request : Request
  deriving DecidableEq, Repr

/-- The shards, and the messages that frontends have sent. -/
structure State where
  shards : ℤ → Shard String
  sent : List Message

/-- The shards are empty, and nothing is sent. -/
def State.init : State := ⟨fun _ => ⟨.init, []⟩, []⟩

/-- A shard is in another state. -/
def State.setShard (s : State) (r : ℤ) (shard : Shard String) : State :=
  { s with shards := Function.update s.shards r shard }

@[simp] theorem State.setShard_self (s : State) (r : ℤ) (shard : Shard String) :
    (s.setShard r shard).shards r = shard := Function.update_self _ _ _

theorem State.setShard_of_ne (s : State) {r r' : ℤ} (h : r' ≠ r) (shard : Shard String) :
    (s.setShard r shard).shards r' = s.shards r' := Function.update_of_ne h _ _

namespace Owner

/-- What can happen next. -/
inductive Event
  /-- A frontend handles a request; `canShardCreateNewUrl` is what it knows of the shards. -/
  | request (sub : String) (request : ClientRequest) (canShardCreateNewUrl : ℤ → Bool)
  /-- Message `k` reaches its shard. -/
  | deliver (k : ℕ)
  /-- A step of shard `r` that is not the arrival of a request. -/
  | shard (r : ℤ) (e : Links.Event String)

/-- A request arrives at a shard. -/
def IsArrival : Links.Event String → Prop
  | .receive _ _ => True
  | _ => False

instance : DecidablePred IsArrival := fun e => by
  cases e <;> unfold IsArrival <;> infer_instance

/-- A step of shard `r`. -/
def stepShard (env : Globalization) (tryCreate : String → Option Uri) (s : State) (r : ℤ)
    (e : Links.Event String) : Option State :=
  (Links.step env tryCreate (s.shards r) e).map (s.setShard r)

/-- A step of a frontend, of a message or of a shard. -/
def step (env : Globalization) (tryCreate : String → Option Uri) (s : State) : Event → Option State
  | .request sub request canShardCreateNewUrl =>
    match handle env tryCreate canShardCreateNewUrl sub request with
    | .ok (r, request) => some { s with sent := s.sent ++ [⟨sub, r, request⟩] }
    | .error _ => some s
  | .deliver k =>
    match s.sent[k]? with
    | some message => stepShard env tryCreate s message.shard (.receive message.sub message.request)
    | none => none
  | .shard r e => if IsArrival e then none else stepShard env tryCreate s r e

variable {env : Globalization} {tryCreate : String → Option Uri} {es : List Event} {s t : State}
  {e : Event}

theorem stepShard_eq {r : ℤ} {e : Links.Event String} (h : stepShard env tryCreate s r e = some t) :
    ∃ shard, Links.step env tryCreate (s.shards r) e = some shard ∧
      t = s.setShard r shard := by
  obtain ⟨shard, hshard, rfl⟩ := Option.map_eq_some_iff.mp h
  exact ⟨shard, hshard, rfl⟩

/-! ## Where requests come from -/

/-- A client has sent a request with this token, for which a frontend asks shard `r` for
    `request`. -/
def Asked (env : Globalization) (tryCreate : String → Option Uri) (es : List Event) (sub : String)
    (r : ℤ) (request : Request) : Prop :=
  ∃ clientRequest canShardCreateNewUrl,
    .request sub clientRequest canShardCreateNewUrl ∈ es ∧
    handle env tryCreate canShardCreateNewUrl sub clientRequest = .ok (r, request)

/-- What is on its way or in progress was asked for by a client. -/
structure Inv (env : Globalization) (tryCreate : String → Option Uri) (es : List Event)
    (s : State) : Prop where
  sent : ∀ message ∈ s.sent, Asked env tryCreate es message.sub message.shard message.request
  calls : ∀ r, ∀ call ∈ (s.shards r).calls, Asked env tryCreate es call.origin r call.request

theorem Asked.append {sub : String} {r : ℤ} {request : Request}
    (h : Asked env tryCreate es sub r request) (es' : List Event) :
    Asked env tryCreate (es ++ es') sub r request := by
  obtain ⟨clientRequest, canShardCreateNewUrl, hmem, hok⟩ := h
  exact ⟨clientRequest, canShardCreateNewUrl, List.mem_append_left _ hmem, hok⟩

theorem Inv.append (h : Inv env tryCreate es s) (es' : List Event) :
    Inv env tryCreate (es ++ es') s :=
  ⟨fun message hmem => (h.sent message hmem).append es',
    fun r call hmem => (h.calls r call hmem).append es'⟩

/-- A step of a shard keeps the invariant if the request that arrives, if any, was asked for. -/
theorem Inv.stepShard {r : ℤ} {e : Links.Event String} (hi : Inv env tryCreate es s)
    (harrival : ∀ sub request, e = .receive sub request → Asked env tryCreate es sub r request)
    (h : stepShard env tryCreate s r e = some t) : Inv env tryCreate es t := by
  obtain ⟨shard, hshard, rfl⟩ := stepShard_eq h
  refine ⟨hi.sent, ?_⟩
  intro r' call hcall
  by_cases hr : r' = r
  · subst hr
    rw [State.setShard_self] at hcall
    rcases step_calls hshard hcall with ⟨call', hmem, horigin, hrequest⟩ | harrives
    · rw [← horigin, ← hrequest]
      exact hi.calls r' call' hmem
    · exact harrival _ _ harrives
  · rw [State.setShard_of_ne s hr] at hcall
    exact hi.calls r' call hcall

theorem Inv.step (hi : Inv env tryCreate es s) (h : step env tryCreate s e = some t) :
    Inv env tryCreate (es ++ [e]) t := by
  have hi := hi.append [e]
  cases e with
  | request sub clientRequest canShardCreateNewUrl =>
    simp only [Owner.step] at h
    split at h
    · rename_i r request hok
      obtain rfl := Option.some.inj h
      refine ⟨?_, hi.calls⟩
      intro message hmem
      rcases List.mem_append.mp hmem with hmem | hmem
      · exact hi.sent message hmem
      · obtain rfl := List.mem_singleton.mp hmem
        exact ⟨clientRequest, canShardCreateNewUrl, by simp, hok⟩
    · obtain rfl := Option.some.inj h
      exact hi
  | deliver k =>
    simp only [Owner.step] at h
    split at h
    · rename_i message hk
      apply hi.stepShard _ h
      intro sub request hreceive
      obtain ⟨rfl, rfl⟩ := Links.Event.receive.inj hreceive
      exact hi.sent message (List.mem_of_getElem? hk)
    · cases h
  | shard r e =>
    simp only [Owner.step, Option.ite_none_left_eq_some] at h
    obtain ⟨hnot, h⟩ := h
    apply hi.stepShard _ h
    rintro sub request rfl
    exact absurd trivial hnot

theorem inv_run (h : Run (step env tryCreate) always .init es s) : Inv env tryCreate es s := by
  induction h with
  | nil => exact ⟨by simp [State.init], by simp [State.init]⟩
  | snoc _ _ hstep ih => exact ih.step hstep

/-! ## Changes -/

/-- The step carries out the last statement of `call` on shard `r`. -/
def Executes (s : State) (e : Event) (r : ℤ) (call : Call String) : Prop :=
  ∃ i, e = .shard r (.execute i) ∧ (s.shards r).calls[i]? = some call

/-- A shard that a step does not change, or changes by a step of its own. -/
theorem step_shard (h : step env tryCreate s e = some t) (r : ℤ) :
    (t.shards r).database = (s.shards r).database ∨
      ∃ e', e = .shard r e' ∧ Links.step env tryCreate (s.shards r) e' = some (t.shards r) := by
  cases e with
  | request sub clientRequest canShardCreateNewUrl =>
    simp only [step] at h
    split at h
    · obtain rfl := Option.some.inj h
      exact .inl rfl
    · obtain rfl := Option.some.inj h
      exact .inl rfl
  | deliver k =>
    simp only [step] at h
    split at h
    · rename_i message _
      obtain ⟨shard, hshard, rfl⟩ := stepShard_eq h
      left
      by_cases hr : r = message.shard
      · subst hr
        obtain rfl := Option.some.inj hshard
        rw [State.setShard_self]
      · rw [State.setShard_of_ne s hr]
    · cases h
  | shard r' e' =>
    simp only [step, Option.ite_none_left_eq_some] at h
    obtain ⟨-, h⟩ := h
    obtain ⟨shard, hshard, rfl⟩ := stepShard_eq h
    by_cases hr : r = r'
    · subst hr
      exact .inr ⟨e', rfl, by rwa [State.setShard_self]⟩
    · exact .inl (by rw [State.setShard_of_ne s hr])

/-- **Only the owner changes a link.** A step after which a link is changed or gone carries
    out a call for which a client has sent a request with the owner's token. -/
theorem owner_changes (h : Run (step env tryCreate) always .init es s)
    (hstep : step env tryCreate s e = some t) {r : ℤ} {row : UrlRow}
    (hrow : row ∈ (s.shards r).database.urls)
    (hchanged : ¬ ∃ row' ∈ (t.shards r).database.urls, row.SameLink row') :
    ∃ call, Executes s e r call ∧ Asked env tryCreate es call.origin r call.request ∧
      UserId.tryParse call.origin = some ⟨r, row.userId⟩ ∧
      ∀ user : UserId, user.IsValid → call.origin = user.toString → user = ⟨r, row.userId⟩ := by
  rcases step_shard hstep r with heq | ⟨e', rfl, hshard⟩
  · exact absurd ⟨row, by rwa [heq], .refl row⟩ hchanged
  · rcases link_kept hshard hrow with hkept | ⟨i, call, rfl, hi, huser⟩
    · exact absurd hkept hchanged
    · have hasked := (inv_run h).calls r call (List.mem_of_getElem? hi)
      obtain ⟨clientRequest, canShardCreateNewUrl, -, hok⟩ := hasked
      have hparse := handle_ok hok
      rw [huser] at hparse
      refine ⟨call, ⟨i, rfl, hi⟩, (inv_run h).calls r call (List.mem_of_getElem? hi), hparse, ?_⟩
      intro user hvalid hsub
      rw [hsub, UserId.tryParse_toString hvalid] at hparse
      exact Option.some.inj hparse

/-! ## A link comes and goes -/

theorem step_request_of {sub : String} {clientRequest : ClientRequest}
    {canShardCreateNewUrl : ℤ → Bool} {r : ℤ} {request : Request}
    (h : handle env tryCreate canShardCreateNewUrl sub clientRequest = .ok (r, request)) :
    step env tryCreate s (.request sub clientRequest canShardCreateNewUrl) =
      some { s with sent := s.sent ++ [⟨sub, r, request⟩] } := by
  simp only [step, h]

theorem step_deliver_of {k : ℕ} {message : Message} (h : s.sent[k]? = some message) :
    step env tryCreate s (.deliver k) = some (s.setShard message.shard
      { s.shards message.shard with
        calls := (s.shards message.shard).calls ++ [⟨message.sub, message.request, none⟩] }) := by
  simp only [step, h, Owner.stepShard]
  rfl

theorem step_shard_of {r : ℤ} {e : Links.Event String} {shard shard' : Shard String}
    (harrival : ¬ IsArrival e) (hr : s.shards r = shard)
    (h : Links.step env tryCreate shard e = some shard') :
    step env tryCreate s (.shard r e) = some (s.setShard r shard') := by
  simp only [step, if_neg harrival, Owner.stepShard, hr, h, Option.map_some]

/-- `Uri.TryCreate` on one URL. -/
def oneUri (s : String) : Option Uri :=
  if s = "https://example.com/1" then some ⟨"https", "example.com", "/1"⟩ else none

/-- User 7 of shard 1. -/
def owner : UserId := ⟨1, 7⟩

theorem isValid_owner : owner.IsValid := ⟨by decide, by decide⟩

/-- His link, of which the short id is `1LafLC9`. -/
def firstLink : UrlRow := ⟨1, 7, 1, "https://example.com/1", 0⟩

/-- The tables with this link. -/
def oneLink : Database := ⟨[⟨1, "example.com"⟩], 1, [firstLink], 1⟩

/-- What the frontend makes of the request of the owner. -/
def createRequest : Request := .create 7 "https://example.com/1"

/-- A request to delete the link. -/
def deleteRequest : Request := .delete 7 "1LafLC9"

theorem handle_createRequest :
    handle .invariantMode oneUri (fun _ => true) owner.toString (.restCreate "https://example.com/1") =
      .ok (1, createRequest) := by
  have huser := UserId.tryParse_toString isValid_owner
  have hrule : destinationRule oneUri "https://example.com/1" = true := by decide +kernel
  have hscheme : withScheme .invariantMode "https://example.com/1" = "https://example.com/1" := by
    decide +kernel
  rw [handle, huser]
  show handleFor _ _ _ owner _ = _
  rw [handleFor, hrule, create, hscheme]
  rfl

theorem handle_deleteRequest :
    handle .invariantMode oneUri (fun _ => true) owner.toString (.restDelete "1LafLC9") =
      .ok (1, deleteRequest) := by
  have huser := UserId.tryParse_toString isValid_owner
  have hrule : shortIdRule "1LafLC9" = true := by decide +kernel
  have hparse : parseId "1LafLC9" = .ret ⟨1, 1⟩ := by decide +kernel
  have hprint : ShortId.toString ⟨1, 1⟩ = .ret "1LafLC9" := by decide +kernel
  have hdelete : delete ⟨1, 1⟩ owner = .ok (1, deleteRequest) := by
    rw [delete, if_neg (by decide), hprint]
    rfl
  rw [handle, huser]
  show handleFor _ _ _ owner _ = _
  rw [handleFor, hrule, hparse]
  exact hdelete

/-- User 7 creates the link, and his request to delete it has arrived. -/
theorem run_beforeDelete :
    ∃ s, Run (step .invariantMode oneUri) always .init
        [.request owner.toString (.restCreate "https://example.com/1") (fun _ => true), .deliver 0,
          .shard 1 (.getOrAdd 0), .shard 1 (.execute 0),
          .request owner.toString (.restDelete "1LafLC9") (fun _ => true), .deliver 1] s ∧
      s.shards 1 = ⟨oneLink, [⟨owner.toString, deleteRequest, none⟩]⟩ := by
  have huri : createRequest.uri oneUri = some ⟨"https", "example.com", "/1"⟩ := by decide +kernel
  have hdomain : Database.init.getOrAdd .invariantMode "example.com" =
      ({ Database.init with domains := [⟨1, "example.com"⟩], domainSequence := 1 },
        ⟨1, "example.com"⟩) := by
    decide +kernel
  have hgetOrAdd : Links.step .invariantMode oneUri
      (⟨.init, [⟨owner.toString, createRequest, none⟩]⟩ : Shard String) (.getOrAdd 0) =
        some ⟨{ Database.init with domains := [⟨1, "example.com"⟩], domainSequence := 1 },
          [⟨owner.toString, createRequest, some 1⟩]⟩ := by
    simp only [Links.step, List.getElem?_cons_zero, huri, hdomain]
    rfl
  have h0 : Run (step .invariantMode oneUri) always .init [] .init := .nil
  have h1 := h0.snoc trivial (step_request_of handle_createRequest)
  have h2 := h1.snoc trivial (step_deliver_of (k := 0) rfl)
  have h3 := h2.snoc trivial (step_shard_of (by simp [IsArrival]) (State.setShard_self _ _ _) hgetOrAdd)
  have h4 := h3.snoc trivial
    (step_shard_of (e := .execute 0) (by simp [IsArrival]) (State.setShard_self _ _ _) rfl)
  have h5 := h4.snoc trivial (step_request_of handle_deleteRequest)
  have h6 := h5.snoc trivial (step_deliver_of (k := 1) rfl)
  refine ⟨_, h6, ?_⟩
  rw [State.setShard_self]
  rfl

theorem owner_changes_firstLink :
    ∃ s t, step .invariantMode oneUri s (.shard 1 (.execute 0)) = some t ∧
      firstLink ∈ (s.shards 1).database.urls ∧ (t.shards 1).database.urls = [] ∧
      ∃ call, Executes s (.shard 1 (.execute 0)) 1 call ∧
        UserId.tryParse call.origin = some ⟨1, 7⟩ := by
  obtain ⟨s, hrun, hs⟩ := run_beforeDelete
  have hexecute : Links.step .invariantMode oneUri
      (⟨oneLink, [⟨owner.toString, deleteRequest, none⟩]⟩ : Shard String) (.execute 0) =
        some ⟨{ oneLink with urls := [] }, []⟩ := by
    decide +kernel
  have hstep := step_shard_of (s := s) (by simp [IsArrival]) hs hexecute
  have hrow : firstLink ∈ (s.shards 1).database.urls := by
    rw [hs]
    exact List.mem_singleton_self _
  obtain ⟨call, hcall, -, hsub, -⟩ := owner_changes hrun hstep hrow (by simp)
  exact ⟨s, _, hstep, hrow, by simp, call, hcall, hsub⟩

end Owner

end Shortener.Links
