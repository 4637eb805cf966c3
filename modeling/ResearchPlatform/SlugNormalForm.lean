import ResearchPlatform.OrganizationCreation
import ResearchPlatform.Library.CaseMappings

/-!
# The normal form of slugs

A slug is made of words of `a-z` and `0-9` with one hyphen between neighbours.
Lower-casing leaves such a text alone, the substitution finds only single hyphens in
it, and there is nothing to strip. So slugs are what `slugify` does not change.
-/

namespace SlugNormalForm

open Uuid Schema TenantService LastAdmin OrganizationCreation Runs Segments CaseMappings

/-- Lower-casing leaves a text of `a-z`, `0-9` and hyphens alone. -/
def FixesSlugs (lower : String → String) : Prop :=
  ∀ text : String, (∀ c ∈ text.toList, c = '-' ∨ isSlugChar c = true) → lower text = text

structure NormalForm (slug : String) : Prop where
  nonempty : slug ≠ ""
  form : SlugForm slug
  leading : slug.toList.head? ≠ some '-'
  trailing : slug.toList.getLast? ≠ some '-'
  doubled : ¬ ['-', '-'] <:+: slug.toList

section Forms
variable {slug : String}

theorem slugForm_ne_empty (form : SlugForm slug) : slug ≠ "" := by
  obtain ⟨ws, some_, words, whole⟩ := slugForm_iff.mp form
  rintro rfl
  exact some_ ((join_eq_nil_iff words).mp whole.symm)

theorem slugForm_leading (form : SlugForm slug) : slug.toList.head? ≠ some '-' := by
  obtain ⟨first, rest, whole, words⟩ := form
  obtain ⟨some_, chars⟩ := words first List.mem_cons_self
  obtain ⟨c, cs, starts⟩ := List.exists_cons_of_ne_nil some_
  intro hyphen
  rw [whole, starts, List.cons_append, List.head?_cons, Option.some.injEq] at hyphen
  exact ne_sep hyphen_other (chars c (by simp [starts])) hyphen

theorem slugForm_trailing (form : SlugForm slug) : slug.toList.getLast? ≠ some '-' := by
  obtain ⟨ws, _, words, whole⟩ := slugForm_iff.mp form
  have stays := rdropWhile_join hyphen_other words
  intro hyphen
  obtain ⟨front, ends⟩ := List.getLast?_eq_some_iff.mp hyphen
  rw [← whole, ends] at stays
  exact List.rdropWhile_eq_self_iff.mp stays (by simp) (by simp)

theorem slugForm_doubled (form : SlugForm slug) : ¬ ['-', '-'] <:+: slug.toList := by
  obtain ⟨ws, _, words, whole⟩ := slugForm_iff.mp form
  rw [whole]
  exact (spaced_join hyphen_other words).no_pair

theorem normalForm_of_slugForm (form : SlugForm slug) : NormalForm slug where
  nonempty := slugForm_ne_empty form
  form := form
  leading := slugForm_leading form
  trailing := slugForm_trailing form
  doubled := slugForm_doubled form

end Forms

/-! ## What lower-casing leaves alone -/

theorem slugChar_toLower {c : Char} (h : c = '-' ∨ isSlugChar c = true) :
    c.toNat < 128 ∧ c.toLower = c := by
  have range : c.toNat < 65 ∨ 90 < c.toNat ∧ c.toNat < 128 := by
    rcases h with rfl | char
    · exact Or.inl (by decide)
    · simp only [isSlugChar, Bool.or_eq_true, Bool.and_eq_true, decide_eq_true_eq, Char.le_def,
        UInt32.le_iff_toNat_le] at char
      rcases char with letter | digit
      · exact Or.inr ⟨lt_of_lt_of_le (by decide) letter.1, lt_of_le_of_lt letter.2 (by decide)⟩
      · exact Or.inl (lt_of_le_of_lt digit.2 (by decide))
  refine ⟨by omega, dif_neg fun capital => ?_⟩
  have large : 65 ≤ c.toNat := UInt32.le_iff_toNat_le.mp capital.1
  have small : c.toNat ≤ 90 := UInt32.le_iff_toNat_le.mp capital.2
  omega

/-- `str.lower` is such a function, in every version of its tables. -/
theorem fixesSlugs_lower (mapping : CaseMapping) : FixesSlugs mapping.lower := by
  intro text chars
  have whole := CaseMapping.lowerFrom_ascii (m := mapping)
    (fun c hc => (slugChar_toLower (chars c hc)).1) [] []
  have same : text.toList.map Char.toLower = text.toList :=
    (List.map_congr_left fun c hc => (slugChar_toLower (chars c hc)).2).trans (List.map_id _)
  rw [List.append_nil, CaseMapping.lowerFrom, List.append_nil, same] at whole
  rw [CaseMapping.lower, whole, String.ofList_toList]

/-! ## Slugs of slugs -/

section Slugs
variable {lower : String → String}

theorem slugify_of_slugForm (fixes : FixesSlugs lower) {slug : String} (form : SlugForm slug) :
    slugify lower slug = slug := by
  obtain ⟨ws, some_, words, whole⟩ := slugForm_iff.mp form
  have same : slugWords lower slug = ws := by
    rw [slugWords, fixes slug form.chars, whole, words_join hyphen_other words]
  rw [slugify_eq, same, if_neg some_, ← whole, String.ofList_toList]

/-- The texts that `slugify` leaves alone are the slugs. -/
theorem slugify_eq_self_iff (fixes : FixesSlugs lower) (text : String) :
    slugify lower text = text ↔ SlugForm text := by
  constructor
  · intro same
    rw [← same]
    exact slugForm_slugify lower text
  · exact slugify_of_slugForm fixes

/-- The translation only changes errors. -/
theorem translated_ok {α : Type} {outcome : Except Failure α} {a : α} (h : translated outcome = .ok a) :
    outcome = .ok a := by
  cases outcome with
  | ok x => exact h
  | error e => cases e <;> cases h

/-- An organization created without a slug has one of the form. -/
theorem createOrganization_normalForm {name : String} {ownerId : UUID} {draw : Draw} {db after : Database}
    {o : Organization} (created : createOrganization lower name none ownerId draw db = .ok (o, after)) :
    NormalForm o.slug := by
  obtain ⟨flushed, _, rest⟩ := of_bind_ok (translated_ok created)
  obtain ⟨stored, _, done⟩ := of_bind_ok rest
  cases done
  exact normalForm_of_slugForm (slugForm_slugify lower name)

end Slugs

/-- Whatever the name, its slug has the normal form, and is its own slug. -/
theorem slug_normal_form (lower : String → String) (fixes : FixesSlugs lower) (s : String) :
    NormalForm (slugify lower s) ∧ slugify lower (slugify lower s) = slugify lower s := by
  have form := slugForm_slugify lower s
  exact ⟨normalForm_of_slugForm form, slugify_of_slugForm fixes form⟩

example : slugify asciiMapping.lower " Ünïcode  Labs!" = "n-code-labs" := by decide

theorem slug_normal_form_demo :
    NormalForm (slugify asciiMapping.lower " Ünïcode  Labs!") ∧
      slugify asciiMapping.lower (slugify asciiMapping.lower " Ünïcode  Labs!") =
        slugify asciiMapping.lower " Ünïcode  Labs!" :=
  slug_normal_form _ (fixesSlugs_lower asciiMapping) _

end SlugNormalForm
