import Shortener.Links.Frontend

/-!
# The rule for short ids

`ShortIdValidator` and the check of `ParseId` use the regular expression `Base62Regex`;
`Base62ToBase10` then looks up each character in a table of its own. The anchor `$` of
.NET also matches before a newline that ends the string, and the table has no newline.

* `isValidBase62_iff`: what the expression accepts.
* `acceptsDecodable_iff`: the two agree on every string but a code with a newline behind it.
-/

namespace Shortener.Links

open Shortener.DotNet Shortener.Codec

/-- A code, and a newline behind it. -/
def IsCodeLine (s : String) : Prop := ∃ code, IsCode code ∧ s = code ++ "\n"

theorem toList_codeLine (code : String) : (code ++ "\n").toList = code.toList ++ ['\n'] := by
  simp

theorem IsCode.not_mem_newline {s : String} (h : IsCode s) : '\n' ∉ s.toList := by
  intro hmem
  exact absurd (h.2 '\n' hmem) (by decide)

theorem not_isCode_of_codeLine {s : String} (h : IsCodeLine s) : ¬ IsCode s := by
  obtain ⟨code, -, rfl⟩ := h
  intro hcode
  refine IsCode.not_mem_newline hcode ?_
  rw [toList_codeLine]
  exact List.mem_append_right _ List.mem_cons_self

theorem isCode_ofList_iff {cs : List Char} :
    IsCode (String.ofList cs) ↔ cs.length = 7 ∧ ∀ c ∈ cs, IsBase62Char c := by
  rw [IsCode, ← String.length_toList, String.toList_ofList]

/-- The strings that match `Base62Regex`. -/
theorem isValidBase62_iff {s : String} :
    isValidBase62 s = true ↔ IsCode s ∨ IsCodeLine s := by
  constructor
  · intro h
    unfold isValidBase62 at h
    by_cases hlast : s.toList.getLast? = some '\n'
    · -- the expression looks at the line in front of the newline
      right
      rw [if_pos hlast] at h
      simp only [Bool.and_eq_true, decide_eq_true_eq, List.all_eq_true] at h
      refine ⟨String.ofList s.toList.dropLast, isCode_ofList_iff.mpr h, ?_⟩
      apply String.toList_injective
      rw [toList_codeLine, String.toList_ofList]
      exact (List.dropLast_append_getLast? '\n' hlast).symm
    · left
      rw [if_neg hlast] at h
      simp only [Bool.and_eq_true, decide_eq_true_eq, List.all_eq_true] at h
      rwa [← String.ofList_toList (s := s), isCode_ofList_iff]
  · intro h
    rcases h with hcode | ⟨code, hcode, rfl⟩
    · exact hcode.valid
    · have hlast : (code ++ "\n").toList.getLast? = some '\n' := by
        rw [toList_codeLine, List.getLast?_concat]
      unfold isValidBase62
      rw [if_pos hlast, toList_codeLine, List.dropLast_concat]
      simp only [hcode.length, decide_true, Bool.true_and, List.all_eq_true, decide_eq_true_eq]
      exact hcode.2

theorem parseId_returns_of_isCode {s : String} (h : IsCode s) : (parseId s).Returns :=
  ⟨_, parseId_of_isCode h⟩

/-- The decoder throws on the newline. -/
theorem base62ToBase10_codeLine {code : String} (h : IsCode code) :
    ¬ (base62ToBase10 (code ++ "\n")).Returns := by
  have hcode := h.base62ToBase10
  obtain ⟨e, hthrow⟩ : ∃ e, convert '\n' = .throw e := ⟨_, rfl⟩
  unfold base62ToBase10 at hcode ⊢
  rw [toList_codeLine, List.foldlM_append, hcode, Exec.ret_bind, List.foldlM_cons]
  simp only [hthrow, Exec.throw_bind]
  exact Exec.not_returns_throw e

/-! ## Ids that can be asked for -/

theorem isCode_of_parseId {shortId : String} {id : ShortId} (h : parseId shortId = .ret id) :
    IsCode shortId := by
  by_contra hnot
  have hvalid : isValidBase62 shortId = true := by
    by_contra hvalid
    simp [parseId, hvalid] at h
  rcases isValidBase62_iff.mp hvalid with hcode | ⟨code, hcode, rfl⟩
  · exact hnot hcode
  · rw [parseId, if_neg (not_not.mpr hvalid), Exec.bind_eq_ret_iff] at h
    obtain ⟨n, hn, -⟩ := h
    exact base62ToBase10_codeLine hcode ⟨n, hn⟩

/-- What a short id was parsed from is what it prints. -/
theorem toString_of_parseId {shortId : String} {id : ShortId} (h : parseId shortId = .ret id) :
    id.toString = .ret shortId := by
  obtain ⟨id', hparse, hprint⟩ := toString_parseId (isCode_of_parseId h)
  obtain rfl : id = id' := Exec.ret.inj (h.symm.trans hparse)
  exact hprint

/-- A short id that a client can ask for. -/
def Parsed (id : ShortId) : Prop := ∃ shortId, parseId shortId = .ret id

theorem Parsed.parseId_toString {id : ShortId} {shortId : String} (h : Parsed id)
    (hprint : id.toString = .ret shortId) : parseId shortId = .ret id := by
  obtain ⟨code, hparse⟩ := h
  obtain rfl : shortId = code := Exec.ret.inj (hprint.symm.trans (toString_of_parseId hparse))
  exact hparse

theorem Parsed.toString_inj {id id' : ShortId} {shortId : String} (h : Parsed id) (h' : Parsed id')
    (hprint : id.toString = .ret shortId) (hprint' : id'.toString = .ret shortId) : id = id' :=
  Exec.ret.inj ((h.parseId_toString hprint).symm.trans (h'.parseId_toString hprint'))

/-! ## Validators and decoder -/

/-- The validators accept `s` exactly if it is seven characters of the alphabet, and what
    they accept can be decoded. -/
structure AcceptsDecodable (s : String) : Prop where
  isValidBase62 : isValidBase62 s = true ↔ IsCode s
  decodes : shortIdRule s = true ∨ Codec.isValidBase62 s = true →
    (base62ToBase10 s).Returns ∧ (parseId s).Returns

/-- **Which strings the validators and the decoder agree on.** -/
theorem acceptsDecodable_iff (s : String) : AcceptsDecodable s ↔ ¬ IsCodeLine s := by
  constructor
  · intro h hline
    have hvalid : isValidBase62 s = true := isValidBase62_iff.mpr (.inr hline)
    exact not_isCode_of_codeLine hline (h.isValidBase62.mp hvalid)
  · intro hline
    have hiff : isValidBase62 s = true ↔ IsCode s := by
      rw [isValidBase62_iff]
      exact or_iff_left hline
    refine ⟨hiff, ?_⟩
    intro haccepted
    have hcode : IsCode s := by
      rcases haccepted with hrule | hvalid
      · exact hiff.mp (Bool.and_eq_true_iff.mp hrule).2
      · exact hiff.mp hvalid
    exact ⟨⟨_, hcode.base62ToBase10⟩, parseId_returns_of_isCode hcode⟩

/-- A code with a newline passes `ShortIdValidator` and the check of `ParseId`, and the
    decoder throws. -/
theorem not_acceptsDecodable_newline :
    isValidBase62 "1LafLC9\n" = true ∧ ¬ IsCode "1LafLC9\n" ∧ shortIdRule "1LafLC9\n" = true ∧
      ¬ (base62ToBase10 "1LafLC9\n").Returns ∧ ¬ (parseId "1LafLC9\n").Returns ∧
      ¬ AcceptsDecodable "1LafLC9\n" := by
  have hprint : ShortId.toString ⟨1, 1⟩ = .ret "1LafLC9" := by decide +kernel
  have hcode : IsCode "1LafLC9" := (ShortId.isCode_of_toString hprint).1
  have hline : IsCodeLine "1LafLC9\n" := ⟨"1LafLC9", hcode, rfl⟩
  refine ⟨isValidBase62_iff.mpr (.inr hline), not_isCode_of_codeLine hline,
    by decide +kernel, base62ToBase10_codeLine hcode, by decide +kernel, ?_⟩
  intro h
  exact not_isCode_of_codeLine hline (h.isValidBase62.mp (isValidBase62_iff.mpr (.inr hline)))

end Shortener.Links
