import Shortener.Links.Frontend

/-!
# The destination of a link

The validators of the frontends and the backend decide with `UrlRegex` of `IsValidHttpUrl`
whether a destination needs `https://` in front. `Create` and `Update` of the frontends
(`Shortener.FrontendShared/Services/UrlService.cs`, lines 51–54 and 219–222) decide it once
more, with `StartsWith`.

* `handleFor_destination`: what a frontend sends for a destination.
* `stores_iff`: what is sent and stored is what was validated exactly if the two tests agree.
-/

namespace Shortener.Links

open Shortener.DotNet Shortener.Codec

/-! ## Destinations -/

/-- The destination that a client asks for. -/
def ClientRequest.destinationUrl : ClientRequest → Option String
  | .restCreate destinationUrl => some destinationUrl
  | .restUpdate _ destinationUrl => some destinationUrl
  | .restDelete _ => none
  | .createUrl destinationUrl => some destinationUrl
  | .updateUrl _ destinationUrl => some destinationUrl
  | .deleteUrl _ => none

/-- The destination that a request to the backend has. -/
def Request.destinationUrl : Request → Option String
  | .create _ destinationUrl => some destinationUrl
  | .update _ _ destinationUrl => some destinationUrl
  | .delete _ _ => none

/-- The string that `IsValidHttpUrl` parses for `s`. -/
def parsedUrl (s : String) : String := if matchesUrlRegex s then s else "https://" ++ s

/-- The test of the frontends. -/
def startsWithScheme (env : Globalization) (s : String) : Bool :=
  env.startsWith s "http://" || env.startsWith s "https://"

/-- The shard that gets `request` checks the host of `uri`, and stores `destinationUrl`, which
    denotes `uri`. -/
structure Stores (tryCreate : String → Option Uri) (request : Request) (destinationUrl : String)
    (uri : Uri) : Prop where
  sent : request.destinationUrl = some destinationUrl
  checked : request.uri tryCreate = some uri
  stored : ∀ {ω : Type} (call : Call ω) (db db' : Database), call.request = request →
    call.execute db = some db' → ∀ row ∈ db'.urls, row ∈ db.urls ∨ row.destinationUrl = destinationUrl
  denotes : tryCreate destinationUrl = some uri

section

variable {env : Globalization} {tryCreate : String → Option Uri} {s : String} {uri : Uri}

theorem ne_https_append (s : String) : s ≠ "https://" ++ s := by
  intro h
  have hlen := congrArg String.length h
  simp at hlen

/-- The two strings are the same exactly if the two tests agree. -/
theorem withScheme_eq_iff :
    withScheme env s = parsedUrl s ↔ startsWithScheme env s = matchesUrlRegex s := by
  have htest : (¬ env.startsWith s "http://" ∧ ¬ env.startsWith s "https://") ↔
      startsWithScheme env s = false := by
    simp [startsWithScheme]
  unfold withScheme parsedUrl
  simp only [htest]
  cases startsWithScheme env s <;> cases matchesUrlRegex s <;>
    simp [ne_https_append, (ne_https_append s).symm]

/-- A string that has been completed is not completed again. -/
theorem matchesUrlRegex_parsedUrl (s : String) : matchesUrlRegex (parsedUrl s) = true := by
  unfold parsedUrl
  split_ifs with h
  · exact h
  · have hstart : ("https://" ++ s).toList.map Char.toLower =
        "https://".toList ++ s.toList.map Char.toLower := by
      rw [String.toList_append, List.map_append]
      rfl
    have hprefix : "https://".toList.isPrefixOf (("https://" ++ s).toList.map Char.toLower) = true := by
      rw [hstart, List.isPrefixOf_iff_prefix]
      exact List.prefix_append _ _
    unfold matchesUrlRegex
    rw [List.any_eq_true]
    exact ⟨"https://", by simp, hprefix⟩

theorem isValidHttpUrl_eq_some_iff :
    isValidHttpUrl tryCreate s = some uri ↔
      tryCreate (parsedUrl s) = some uri ∧ (uri.scheme = "http" ∨ uri.scheme = "https") := by
  rw [isValidHttpUrl, Option.filter_eq_some_iff, decide_eq_true_eq]
  rfl

/-- The backend parses the string that was validated to the same URI. -/
theorem isValidHttpUrl_parsedUrl (h : isValidHttpUrl tryCreate s = some uri) :
    isValidHttpUrl tryCreate (parsedUrl s) = some uri := by
  have hidem : parsedUrl (parsedUrl s) = parsedUrl s := if_pos (matchesUrlRegex_parsedUrl s)
  rw [isValidHttpUrl_eq_some_iff] at h ⊢
  rwa [hidem]

/-! ## What is sent -/

theorem update_destination {id : ShortId} {userId : UserId} {r : ℤ} {request : Request}
    (h : update env id userId s = .ok (r, request)) :
    ∃ shortId, IsCode shortId ∧ request = .update userId.id shortId (withScheme env s) := by
  unfold update at h
  split_ifs at h
  cases hprint : id.toString with
  | ret shortId =>
    rw [hprint] at h
    obtain ⟨-, rfl⟩ := Prod.mk.inj (Except.ok.inj h)
    exact ⟨shortId, (id.isCode_of_toString hprint).1, rfl⟩
  | throw e =>
    rw [hprint] at h
    cases h
  | diverge =>
    rw [hprint] at h
    cases h

theorem create_destination {can : ℤ → Bool} {userId : UserId} {r : ℤ} {request : Request}
    (h : create env can userId s = .ok (r, request)) :
    request = .create userId.id (withScheme env s) := by
  unfold create at h
  split_ifs at h
  exact (Prod.mk.inj (Except.ok.inj h)).2.symm

/-- Both frontends send the destination with the scheme of `Create` or `Update`. -/
theorem handleFor_destination {can : ℤ → Bool} {userId : UserId} {clientRequest : ClientRequest}
    {r : ℤ} {request : Request} (hs : clientRequest.destinationUrl = some s)
    (h : handleFor env tryCreate can userId clientRequest = .ok (r, request)) :
    request = .create userId.id (withScheme env s) ∨
      ∃ shortId, IsCode shortId ∧ request = .update userId.id shortId (withScheme env s) := by
  cases clientRequest with
  | restCreate destinationUrl =>
    obtain rfl := Option.some.inj hs
    simp only [handleFor] at h
    split_ifs at h
    exact .inl (create_destination h)
  | createUrl destinationUrl =>
    obtain rfl := Option.some.inj hs
    simp only [handleFor] at h
    split_ifs at h
    exact .inl (create_destination h)
  | restUpdate shortId destinationUrl =>
    obtain rfl := Option.some.inj hs
    simp only [handleFor] at h
    split_ifs at h
    obtain ⟨id, h⟩ := bind_ok h
    split_ifs at h
    exact .inr (update_destination h)
  | updateUrl shortUrl destinationUrl =>
    obtain rfl := Option.some.inj hs
    simp only [handleFor] at h
    split_ifs at h
    obtain ⟨id, h⟩ := bind_ok h
    split_ifs at h
    exact .inr (update_destination h)
  | restDelete shortId => cases hs
  | deleteUrl shortUrl => cases hs

/-! ## What is stored -/

/-- The rows after the last statement of a call are old ones, or hold its destination. -/
theorem stored_of_execute {ω : Type} {call : Call ω} {db db' : Database}
    (hs : call.request.destinationUrl = some s) (h : call.execute db = some db') :
    ∀ row ∈ db'.urls, row ∈ db.urls ∨ row.destinationUrl = s := by
  intro row hrow
  unfold Call.execute at h
  split at h
  · rename_i userId destinationUrl domainId hrequest _
    obtain rfl := Option.some.inj h
    rw [hrequest] at hs
    obtain rfl := Option.some.inj hs
    rcases List.mem_append.mp hrow with hold | hnew
    · exact .inl hold
    · exact .inr (List.mem_singleton.mp hnew ▸ rfl)
  · rename_i userId shortId destinationUrl domainId hrequest _
    split at h
    · obtain rfl := Option.some.inj h
      rw [hrequest] at hs
      obtain rfl := Option.some.inj hs
      obtain ⟨old, hold, rfl⟩ := List.mem_map.mp hrow
      split_ifs
      · exact .inr rfl
      · exact .inl hold
    · cases h
  · rename_i userId shortId hrequest
    rw [hrequest] at hs
    cases hs
  · cases h

/-- A request for the string that was validated. -/
theorem stores_of_sent {request : Request} {userId : ℤ} (huri : isValidHttpUrl tryCreate s = some uri)
    (h : request = .create userId (parsedUrl s) ∨
      ∃ shortId, IsCode shortId ∧ request = .update userId shortId (parsedUrl s)) :
    Stores tryCreate request (parsedUrl s) uri := by
  have hparsed := isValidHttpUrl_parsedUrl huri
  have hsent : request.destinationUrl = some (parsedUrl s) := by
    rcases h with rfl | ⟨shortId, -, rfl⟩
    · rfl
    · rfl
  have hchecked : request.uri tryCreate = some uri := by
    rcases h with rfl | ⟨shortId, hcode, rfl⟩
    · exact hparsed
    · show (if (parseId shortId).Returns then isValidHttpUrl tryCreate (parsedUrl s) else none) = _
      rw [if_pos ⟨_, parseId_of_isCode hcode⟩, hparsed]
  refine ⟨hsent, hchecked, ?_, (isValidHttpUrl_eq_some_iff.mp huri).1⟩
  intro ω call db db' hrequest hexecute
  exact stored_of_execute (hrequest ▸ hsent) hexecute

/-- **When what is validated is what is stored.** -/
theorem stores_iff (env : Globalization) (tryCreate : String → Option Uri) {s : String}
    (hs : destinationRule tryCreate s = true) :
    (∃ uri, isValidHttpUrl tryCreate s = some uri ∧
      ∀ can userId clientRequest r request, clientRequest.destinationUrl = some s →
        handleFor env tryCreate can userId clientRequest = .ok (r, request) →
          Stores tryCreate request (parsedUrl s) uri) ↔
      startsWithScheme env s = matchesUrlRegex s := by
  rw [← withScheme_eq_iff]
  constructor
  · intro h
    obtain ⟨uri, -, hstores⟩ := h
    have hsent : handleFor env tryCreate (fun _ => true) ⟨0, 0⟩ (.restCreate s) =
        .ok (0, .create 0 (withScheme env s)) := by
      rw [handleFor, hs]
      rfl
    exact Option.some.inj (hstores _ _ (.restCreate s) _ _ rfl hsent).sent
  · intro h
    obtain ⟨uri, huri⟩ := Option.isSome_iff_exists.mp (Bool.and_eq_true_iff.mp hs).2
    refine ⟨uri, huri, ?_⟩
    intro can userId clientRequest r request hdestination hhandle
    have hsent := handleFor_destination hdestination hhandle
    rw [h] at hsent
    exact stores_of_sent huri hsent

end

/-! ## Two destinations -/

/-- `Uri.TryCreate` on three strings; the last one has the host `http`. -/
def threeUris (s : String) : Option Uri :=
  if s = "https://example.com/1" then some ⟨"https", "example.com", "/1"⟩
  else if s = "HTTP://example.com/1" then some ⟨"http", "example.com", "/1"⟩
  else if s = "https://HTTP://example.com/1" then some ⟨"https", "http", "//example.com/1"⟩
  else none

/-- A destination without scheme. -/
theorem stores_iff_noScheme :
    ∃ uri, isValidHttpUrl threeUris "example.com/1" = some uri ∧
      ∀ can userId clientRequest r request, clientRequest.destinationUrl = some "example.com/1" →
        handleFor .invariantMode threeUris can userId clientRequest = .ok (r, request) →
          Stores threeUris request "https://example.com/1" uri :=
  (stores_iff .invariantMode threeUris (by decide +kernel)).mpr (by decide +kernel)

/-- A scheme in capitals is validated as it is and stored with a second scheme in front. -/
theorem not_stores_capitals :
    destinationRule threeUris "HTTP://example.com/1" = true ∧
      parsedUrl "HTTP://example.com/1" = "HTTP://example.com/1" ∧
      handleFor .invariantMode threeUris (fun _ => true) ⟨1, 7⟩ (.restCreate "HTTP://example.com/1") =
        .ok (1, .create 7 "https://HTTP://example.com/1") ∧
      ¬ ∃ uri, isValidHttpUrl threeUris "HTTP://example.com/1" = some uri ∧
        Stores threeUris (.create 7 "https://HTTP://example.com/1")
          (parsedUrl "HTTP://example.com/1") uri := by
  have hrule : destinationRule threeUris "HTTP://example.com/1" = true := by decide +kernel
  have hscheme : withScheme .invariantMode "HTTP://example.com/1" = "https://HTTP://example.com/1" := by
    decide +kernel
  have hparsed : parsedUrl "HTTP://example.com/1" = "HTTP://example.com/1" := by decide +kernel
  refine ⟨hrule, hparsed, ?_, ?_⟩
  · rw [handleFor, hrule, create, hscheme]
    rfl
  · rintro ⟨uri, -, hstores⟩
    have hsent := Option.some.inj hstores.sent
    rw [hparsed] at hsent
    exact absurd hsent (by decide)

end Shortener.Links
