import Shortener.Urls.Arguments

/-!
# Coherent paging arguments

`GetUrlsValidator` (`Shortener.FrontendShared/Validators/UrlValidators.cs`, lines 28–69) has
four groups of rules. The fourth is a copy of the second, so `Before` has no rules of its own:
it passes with any text, and without `Last`.

* `notEmpty_of_parseCursor`: a cursor that can be parsed is not blank.
* `coherent_iff`: accepted arguments are coherent exactly if `Before` meets the rules that
  `After` has.
-/

namespace Shortener.Urls

open Shortener.DotNet Shortener.Codec

/-- The rules for `After`, for `Before`. -/
def GetUrlsInput.BeforeRule (input : GetUrlsInput) : Prop :=
  ∀ before ∈ input.before, input.last ≠ none ∧ notEmpty before ∧ IsValidCursor before

instance (input : GetUrlsInput) : Decidable input.BeforeRule := by
  unfold GetUrlsInput.BeforeRule
  infer_instance

/-- What the frontend and the backend rely on. -/
structure GetUrlsInput.Coherent (input : GetUrlsInput) : Prop where
  oneDirection : input.first = none ∨ input.last = none
  first : ∀ first ∈ input.first, 1 ≤ first ∧ first ≤ 50
  last : ∀ last ∈ input.last, 1 ≤ last ∧ last ≤ 50
  after : ∀ after ∈ input.after, input.first ≠ none ∧ (parseCursor after).Returns
  before : ∀ before ∈ input.before, input.last ≠ none ∧ (parseCursor before).Returns
  /-- the frontend sends every cursor -/
  sent : ∀ userId, (input.request userId).after = input.after ∧
    (input.request userId).before = input.before
  /-- the backend parses every cursor -/
  parsed : ∀ userId, (input.request userId).query.Returns

variable {input : GetUrlsInput}

/-! ## Blank cursors -/

theorem not_isWhiteSpace_base64Char : ∀ n < 64, isWhiteSpace (base64Char n) = false := by
  decide +kernel

theorem base64Value_of_isWhiteSpace {c : Char} (h : isWhiteSpace c = true) : base64Value c = none := by
  have hnot : c ∉ base64Alphabet := by
    intro hmem
    obtain ⟨n, hn, rfl⟩ := List.mem_iff_getElem.mp hmem
    have hchar : base64Char n = base64Alphabet[n] := List.getD_eq_getElem _ _ hn
    have hlength : base64Alphabet.length = 64 := by decide
    rw [← hchar, not_isWhiteSpace_base64Char n (hlength ▸ hn)] at h
    cases h
  exact List.idxOf?_eq_none_iff.mpr hnot

theorem fromBase64Groups_cons_eq_none {c : Char} (h : base64Value c = none) (text : List Char) :
    fromBase64Groups (c :: text) = none := by
  match text with
  | [] => rfl
  | [_] => rfl
  | [_, _] => rfl
  | x :: y :: z :: text => rw [fromBase64Groups, h]; rfl

/-- A blank text is not Base64, or the Base64 of nothing. -/
theorem fromBase64_blank {text : List Char} (h : ∀ c ∈ text, isWhiteSpace c = true) :
    fromBase64 text = none ∨ fromBase64 text = some [] := by
  unfold fromBase64
  cases hfilter : text.filter fun c => !isBase64White c with
  | nil => exact .inr rfl
  | cons c rest =>
    left
    have hmem : c ∈ text.filter fun c => !isBase64White c := by
      rw [hfilter]
      exact List.mem_cons_self
    exact fromBase64Groups_cons_eq_none
      (base64Value_of_isWhiteSpace (h c (List.mem_of_mem_filter hmem))) rest

/-- A cursor that can be parsed is not blank. -/
theorem notEmpty_of_parseCursor {cursor : String} (h : (parseCursor cursor).Returns) :
    notEmpty cursor = true := by
  by_contra hempty
  have hblank : ∀ c ∈ cursor.toList, isWhiteSpace c = true := by
    simpa [notEmpty] using hempty
  unfold parseCursor at h
  split_ifs at h with hnil
  · exact Exec.not_returns_throw _ h
  · unfold decode at h
    rcases fromBase64_blank hblank with hdecode | hdecode
    · rw [hdecode] at h
      exact Exec.not_returns_throw _ h
    · rw [hdecode] at h
      exact Exec.not_returns_throw _ h

/-! ## Accepted arguments -/

theorem parseCursor?_returns {cursor : Option String}
    (h : ∀ c ∈ cursor, (parseCursor c).Returns) : (parseCursor? cursor).Returns := by
  cases cursor with
  | none => exact Exec.returns_ret _
  | some c =>
    obtain ⟨parsed, hparsed⟩ := h c rfl
    exact ⟨some parsed, by rw [parseCursor?, hparsed]; rfl⟩

/-- The backend gets through its cursors if they can be parsed. -/
theorem query_returns {request : GetUrlsByUserIdRequest}
    (hafter : ∀ c ∈ request.after, (parseCursor c).Returns)
    (hbefore : ∀ c ∈ request.before, (parseCursor c).Returns) : request.query.Returns := by
  obtain ⟨after, ha⟩ := parseCursor?_returns hafter
  obtain ⟨before, hb⟩ := parseCursor?_returns hbefore
  unfold GetUrlsByUserIdRequest.query
  cases request.first with
  | some first => exact ⟨_, by rw [ha]; rfl⟩
  | none =>
    cases request.last with
    | some last => exact ⟨_, by rw [hb]; rfl⟩
    | none => exact Exec.returns_ret _

/-- The frontend drops no cursor that stands beside its number. -/
theorem request_cursors (userId : ℤ) (hone : input.first = none ∨ input.last = none)
    (hafter : ∀ after ∈ input.after, input.first ≠ none)
    (hbefore : ∀ before ∈ input.before, input.last ≠ none) :
    (input.request userId).after = input.after ∧ (input.request userId).before = input.before := by
  have ha : input.first = none → input.after = none := fun hfirst =>
    Option.eq_none_iff_forall_ne_some.mpr fun after hsome => hafter after hsome hfirst
  have hb : input.last = none → input.before = none := fun hlast =>
    Option.eq_none_iff_forall_ne_some.mpr fun before hsome => hbefore before hsome hlast
  unfold GetUrlsInput.request
  cases hf : input.first with
  | some first => exact ⟨rfl, (hb (hone.resolve_left (by simp [hf]))).symm⟩
  | none =>
    cases hl : input.last with
    | some last => exact ⟨(ha hf).symm, rfl⟩
    | none => exact ⟨(ha hf).symm, (hb hl).symm⟩

/-- **When accepted arguments are coherent.** -/
theorem coherent_iff (hv : input.IsValid) : input.Coherent ↔ input.BeforeRule := by
  obtain ⟨hfirst, hafter, hlast, -⟩ := hv
  constructor
  · intro h before hbefore
    obtain ⟨hset, hparse⟩ := h.before before hbefore
    exact ⟨hset, notEmpty_of_parseCursor hparse, hparse⟩
  · intro h
    have hone : input.first = none ∨ input.last = none := by
      by_contra hboth
      obtain ⟨hf, hl⟩ := not_or.mp hboth
      obtain ⟨first, hsome⟩ := Option.ne_none_iff_exists'.mp hf
      exact hl (hfirst first hsome).2.1
    have hsent := fun userId => request_cursors userId hone
      (fun after hmem => (hafter after hmem).1) fun before hmem => (h before hmem).1
    refine ⟨hone, fun first hmem => (hfirst first hmem).1, fun last hmem => (hlast last hmem).1,
      fun after hmem => ⟨(hafter after hmem).1, (hafter after hmem).2.2⟩,
      fun before hmem => ⟨(h before hmem).1, (h before hmem).2.2⟩, hsent, ?_⟩
    intro userId
    apply query_returns
    · intro c hc
      exact (hafter c ((hsent userId).1 ▸ hc)).2.2
    · intro c hc
      exact (h c ((hsent userId).2 ▸ hc)).2.2

/-- The last page before a cursor. -/
theorem coherent_iff_before :
    GetUrlsInput.Coherent ⟨none, none, some 10, some (createCursor 5 0)⟩ := by
  have hparse : (parseCursor (createCursor 5 0)).Returns :=
    ⟨_, parseCursor_createCursor (by decide) (by decide)⟩
  refine (coherent_iff (by decide)).mpr ?_
  rintro before ⟨⟩
  exact ⟨by simp, notEmpty_of_parseCursor hparse, hparse⟩

/-- A cursor that is no Base64, and without `Last`, is accepted. -/
theorem not_coherent_garbage :
    GetUrlsInput.IsValid ⟨none, none, none, some "?"⟩ ∧
      ¬ GetUrlsInput.Coherent ⟨none, none, none, some "?"⟩ := by
  refine ⟨by decide +kernel, ?_⟩
  intro h
  exact (h.before "?" rfl).1 rfl

end Shortener.Urls
