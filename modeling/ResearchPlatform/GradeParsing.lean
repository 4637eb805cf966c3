import ResearchPlatform.EvaluationService
import ResearchPlatform.StringMethods

/-!
# What the grade parser accepts

`_parse_grade` looks for a grade word at the start of the trimmed reply, and takes what
stands behind the first pipe for the reasoning. It does not look at what stands between.
-/

namespace EvaluationService

open Schema TextChunker StringMethods CaseMappings CaseMapping

/-- The grade with which the loop returns. -/
def matchedGrade (text : TextMethods) (rawResponse : String) : Option RelevanceGrade :=
  RelevanceGrade.members.find? fun grade =>
    grade.value.toList.isPrefixOf (text.lower (text.strip rawResponse)).toList

/-- What is returned behind the loop. -/
def couldNotParse (text : TextMethods) (rawResponse : String) : RelevanceGrade × String :=
  (.ambiguous, "Could not parse LLM response: " ++
    String.ofList ((text.strip rawResponse).toList.take 100))

theorem parseGrade_eq (text : TextMethods) (rawResponse : String) :
    parseGrade text rawResponse = match matchedGrade text rawResponse with
      | some grade => (grade, reasoningOf text (text.strip rawResponse))
      | none => couldNotParse text rawResponse := rfl

/-- The trimmed reply up to its first pipe is, trimmed and lower-cased, a grade word. -/
def Conforms (text : TextMethods) (rawResponse : String) : Prop :=
  ∃ grade : RelevanceGrade, text.lower (text.strip (String.ofList
    ((text.strip rawResponse).toList.takeWhile fun c => c ≠ '|'))) = grade.value

/-- No reply that does not conform gets a grade of its own. -/
structure RejectsNonconforming (text : TextMethods) (rawResponse : String) : Prop where
  accepted : (matchedGrade text rawResponse).isSome = true → Conforms text rawResponse
  rejected : ¬ Conforms text rawResponse → parseGrade text rawResponse = couldNotParse text rawResponse

/-! ## Grade words -/

namespace RelevanceGrade

theorem value_plain (grade : RelevanceGrade) : Plain grade.value.toList := by
  cases grade <;> decide

theorem value_letters (grade : RelevanceGrade) :
    grade.value.toList.all (fun x => 95 ≤ x.toNat && x.toNat ≤ 122) = true := by
  cases grade <;> decide

theorem value_ne_nil (grade : RelevanceGrade) : grade.value.toList ≠ [] := by
  cases grade <;> decide

/-- No grade word is the start of another one. -/
theorem eq_of_prefix {grade other : RelevanceGrade}
    (h : grade.value.toList <+: other.value.toList) : grade = other := by
  revert h
  cases grade <;> cases other <;> decide

theorem mem_members (grade : RelevanceGrade) : grade ∈ members := by
  cases grade <;> decide

end RelevanceGrade

section Words
variable {grade other : RelevanceGrade} {m : CaseMapping} {spelling rest : Text} {raw : String}

theorem spelling_ne_nil (spelled : Spells grade.value.toList spelling) : spelling ≠ [] := by
  rintro rfl
  exact grade.value_ne_nil spelled.symm

/-- A spelling has neither white space nor a pipe. -/
theorem spelling_solid (spelled : Spells grade.value.toList spelling) :
    ∀ ch ∈ spelling, isSpace ch = false ∧ ch ≠ '|' := by
  have letters : ∀ x ∈ grade.value.toList, 95 ≤ x.toNat ∧ x.toNat ≤ 122 := by
    simpa using grade.value_letters
  intro ch mem
  have ascii := spelled.ascii grade.value_plain ch mem
  have low := letters ch.toLower (spelled ▸ List.mem_map_of_mem mem)
  have small : ∀ n < 128, 95 ≤ (Char.ofNat n).toLower.toNat → (Char.ofNat n).toLower.toNat ≤ 122 →
      isSpace (Char.ofNat n) = false ∧ Char.ofNat n ≠ '|' := by
    decide
  have own := small ch.toNat ascii
  rw [Char.ofNat_toNat] at own
  exact own low.1 low.2

/-- The loop returns a grade if and only if its word comes first. -/
theorem matchedGrade_eq_some_iff :
    matchedGrade (textMethods m) raw = some grade ↔
      ∃ spelling rest, strip raw.toList = spelling ++ rest ∧ Spells grade.value.toList spelling := by
  have lowered : ((textMethods m).lower ((textMethods m).strip raw)).toList =
      m.lowerFrom [] (strip raw.toList) := by
    simp [textMethods, lower]
  rw [← prefix_lowerFrom_iff (m := m) grade.value_plain [], matchedGrade, lowered]
  constructor
  · intro found
    have hit := List.find?_some (p := fun grade : RelevanceGrade =>
      grade.value.toList.isPrefixOf (m.lowerFrom [] (strip raw.toList))) found
    exact List.isPrefixOf_iff_prefix.mp hit
  · intro start
    cases found : RelevanceGrade.members.find? fun grade =>
        grade.value.toList.isPrefixOf (m.lowerFrom [] (strip raw.toList)) with
    | none =>
      have missed := List.find?_eq_none.mp found grade grade.mem_members
      exact absurd (List.isPrefixOf_iff_prefix.mpr start) missed
    | some other =>
      have hit := List.find?_some (p := fun grade : RelevanceGrade =>
        grade.value.toList.isPrefixOf (m.lowerFrom [] (strip raw.toList))) found
      have first := List.isPrefixOf_iff_prefix.mp hit
      rcases List.prefix_or_prefix_of_prefix first start with before | before
      · rw [RelevanceGrade.eq_of_prefix before]
      · rw [RelevanceGrade.eq_of_prefix before]

/-- What the reply has up to its first pipe, if a grade word comes first. -/
theorem head_of_spelled (whole : strip raw.toList = spelling ++ rest)
    (spelled : Spells grade.value.toList spelling) :
    strip ((strip raw.toList).takeWhile fun c => c ≠ '|') =
      spelling ++ (rest.takeWhile fun c => c ≠ '|').rdropWhile isSpace := by
  have solid := spelling_solid spelled
  have head : (spelling ++ rest).takeWhile (fun c => c ≠ '|') =
      spelling ++ rest.takeWhile fun c => c ≠ '|' :=
    List.takeWhile_append_of_pos fun ch mem => decide_eq_true (solid ch mem).2
  rw [whole, head]
  exact strip_word_append (spelling_ne_nil spelled) (fun ch mem => (solid ch mem).1) _

theorem conforms_iff : Conforms (textMethods m) raw ↔ ∃ grade : RelevanceGrade,
    Spells grade.value.toList (strip ((strip raw.toList).takeWhile fun c => c ≠ '|')) := by
  have lowered (grade : RelevanceGrade) : (textMethods m).lower ((textMethods m).strip (String.ofList
      (((textMethods m).strip raw).toList.takeWhile fun c => c ≠ '|'))) = grade.value ↔
        Spells grade.value.toList (strip ((strip raw.toList).takeWhile fun c => c ≠ '|')) := by
    rw [← lowerFrom_eq_iff (m := m) grade.value_plain [], ← String.toList_inj]
    simp [textMethods, lower]
  exact exists_congr lowered

end Words

/-! ## Replies that do not conform -/

/-- Behind a grade word at the start of the trimmed reply only white space stands up to the
first pipe, or up to the end. -/
def OnlyBlankFollows (reply : Text) : Prop :=
  ∀ (grade : RelevanceGrade) (spelling rest : Text), strip reply = spelling ++ rest →
    Spells grade.value.toList spelling →
      ∀ ch ∈ rest.takeWhile fun c => c ≠ '|', isSpace ch = true

/-- Prefix matching accepts no more than the three words exactly where nothing else follows
the word that it has matched. -/
theorem rejects_nonconforming_iff (m : CaseMapping) (reply : String) :
    RejectsNonconforming (textMethods m) reply ↔ OnlyBlankFollows reply.toList := by
  constructor
  · intro strict grade spelling rest whole spelled
    have found : matchedGrade (textMethods m) reply = some grade :=
      matchedGrade_eq_some_iff.mpr ⟨spelling, rest, whole, spelled⟩
    obtain ⟨other, exact_⟩ := conforms_iff.mp (strict.accepted (by rw [found]; rfl))
    rw [head_of_spelled whole spelled] at exact_
    have letters : grade.value.toList ++ ((rest.takeWhile fun c => c ≠ '|').rdropWhile isSpace).map
        Char.toLower = other.value.toList := by
      rw [← exact_, ← spelled, List.map_append]
    have same : grade = other := RelevanceGrade.eq_of_prefix ⟨_, letters⟩
    rw [same, List.append_right_eq_self, List.map_eq_nil_iff] at letters
    exact List.rdropWhile_eq_nil_iff.mp letters
  · intro blank
    have accepted : (matchedGrade (textMethods m) reply).isSome = true →
        Conforms (textMethods m) reply := by
      intro matched
      obtain ⟨grade, found⟩ := Option.isSome_iff_exists.mp matched
      obtain ⟨spelling, rest, whole, spelled⟩ := matchedGrade_eq_some_iff.mp found
      have none := List.rdropWhile_eq_nil_iff.mpr (blank grade spelling rest whole spelled)
      refine conforms_iff.mpr ⟨grade, ?_⟩
      rw [head_of_spelled whole spelled, none, List.append_nil]
      exact spelled
    refine ⟨accepted, fun loose => ?_⟩
    rw [parseGrade_eq]
    cases found : matchedGrade (textMethods m) reply with
    | none => rfl
    | some grade => exact absurd (accepted (by rw [found]; rfl)) loose

/-- A reply that speaks of relevant information and finds none is graded relevant. -/
theorem relevant_is_missing :
    parseGrade (textMethods asciiMapping) "Relevant information is missing." = (.relevant, "") ∧
      ¬ RejectsNonconforming (textMethods asciiMapping) "Relevant information is missing." := by
  refine ⟨by decide +kernel, fun strict => ?_⟩
  obtain ⟨grade, spelled⟩ := conforms_iff.mp (strict.accepted (by decide +kernel))
  revert spelled
  cases grade <;> decide +kernel

/-! ## Replies that conform -/

theorem parse_grade_round_trip (m : CaseMapping) (grade : RelevanceGrade)
    (left spelling reasoning right : String) (blankLeft : ∀ ch ∈ left.toList, isSpace ch = true)
    (spelled : Spells grade.value.toList spelling.toList)
    (blankRight : ∀ ch ∈ right.toList, isSpace ch = true) :
    parseGrade (textMethods m) (left ++ spelling ++ "|" ++ reasoning ++ right) =
      (grade, (textMethods m).strip reasoning) := by
  have solid := spelling_solid spelled
  have pipe : isSpace '|' = false := by decide
  have trimmed : strip (left ++ spelling ++ "|" ++ reasoning ++ right).toList =
      spelling.toList ++ '|' :: reasoning.toList.rdropWhile isSpace := by
    have parts : (left ++ spelling ++ "|" ++ reasoning ++ right).toList =
        left.toList ++ (spelling.toList ++ '|' :: reasoning.toList) ++ right.toList := by
      simp [String.toList_append]
    rw [parts, strip_append_blank blankRight, strip_blank_append blankLeft,
      strip_word_append (spelling_ne_nil spelled) fun ch mem => (solid ch mem).1]
    congr 1
    exact rdropWhile_behind pipe [] reasoning.toList
  have found := (matchedGrade_eq_some_iff (m := m)).mpr ⟨_, _, trimmed, spelled⟩
  rw [parseGrade_eq, found]
  have behind : (spelling.toList ++ '|' :: reasoning.toList.rdropWhile isSpace).dropWhile
      (fun c => c ≠ '|') = '|' :: reasoning.toList.rdropWhile isSpace := by
    rw [List.dropWhile_append_of_pos fun ch mem => decide_eq_true (solid ch mem).2]
    rfl
  simp only [reasoningOf, textMethods, String.toList_ofList, trimmed, behind, strip_rdropWhile]

/-- Further pipes and grade words belong to the reasoning. -/
theorem parse_grade_round_trip_not_relevant :
    parseGrade (textMethods asciiMapping) ("\n " ++ "Not_Relevant" ++ "|" ++ " relevant|no " ++ "\n") =
      (.notRelevant, (textMethods asciiMapping).strip " relevant|no ") :=
  parse_grade_round_trip asciiMapping .notRelevant "\n " "Not_Relevant" " relevant|no " "\n"
    (List.all_eq_true.mp (by decide)) (by decide) (List.all_eq_true.mp (by decide))

end EvaluationService
