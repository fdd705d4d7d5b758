import JobPing.AnswerResolver
import JobPing.WordOccurrences

/-!
# Protected questions and personal facts

Which category a question is put in is decided by the order of the alias table alone: the first
category an alias of which stands anywhere in the text, also within a word. A question on a
protected subject that names an earlier category as well gets the value of that category
(`protected_answer_iff`), or passes for a question that may be answered freely
(`protected_generation_iff`); a word that contains an alias gets a personal fact
(`whole_word_answer_iff`). Each theorem says exactly when this does not happen.
-/

namespace JobPing

/-! ## Categories -/

/-- An alias stands in the normalised question. -/
def Stated (P : Python) (normalized : Str) (aliases : List Str) : Prop :=
  ∃ name ∈ aliases, normalizeQuestion P name <:+: normalized

/-- The first category of the table that the question states. -/
def IsFirst (P : Python) (normalized : Str) (category : AnswerCategory) (aliases : List Str) :
    Prop :=
  Stated P normalized aliases ∧ ∃ before after, answerAliases = before ++ (category, aliases) :: after ∧
    ∀ entry ∈ before, ¬Stated P normalized entry.2

/-- The question contains an alias of the category. -/
def MentionsCategory (P : Python) (normalized : Str) (category : AnswerCategory) : Prop :=
  ∃ entry ∈ answerAliases, entry.1 = category ∧ Stated P normalized entry.2

/-- The question contains an alias of a protected category. -/
def MentionsProtected (P : Python) (normalized : Str) : Prop :=
  ∃ category, category.value ∈ protectedCategories ∧ MentionsCategory P normalized category

variable {P : Python} {normalized : Str} {category : AnswerCategory} {aliases : List Str}

theorem mentioned_iff : mentioned P normalized aliases = true ↔ Stated P normalized aliases := by
  simp only [mentioned, Stated, List.any_map, List.any_eq_true, Function.comp_apply,
    Bool.or_eq_true, decide_eq_true_eq]
  refine exists_congr fun name => and_congr_right fun _ => ?_
  constructor
  · rintro (heq | hinfix)
    · exact heq ▸ List.infix_rfl
    · exact hinfix
  · exact .inr

/-- **The category of a question** is the first it states. -/
theorem category_eq_some_iff :
    categoryOf P normalized = some category ↔ ∃ aliases, IsFirst P normalized category aliases := by
  simp only [categoryOf, Option.map_eq_some_iff, List.find?_eq_some_iff_append, mentioned_iff,
    Bool.not_eq_true', ← Bool.not_eq_true, IsFirst]
  constructor
  · rintro ⟨⟨_, aliases⟩, ⟨hstated, before, after, htable, hbefore⟩, rfl⟩
    exact ⟨aliases, hstated, before, after, htable, hbefore⟩
  · rintro ⟨aliases, hstated, before, after, htable, hbefore⟩
    exact ⟨(category, aliases), ⟨hstated, before, after, htable, hbefore⟩, rfl⟩

theorem IsFirst.mentions (h : IsFirst P normalized category aliases) :
    MentionsCategory P normalized category := by
  obtain ⟨hstated, before, after, htable, -⟩ := h
  refine ⟨(category, aliases), ?_, rfl, hstated⟩
  rw [htable]
  exact List.mem_append_right before List.mem_cons_self

theorem IsFirst.mem (h : IsFirst P normalized category aliases) :
    (category, aliases) ∈ answerAliases := by
  obtain ⟨-, before, after, htable, -⟩ := h
  rw [htable]
  exact List.mem_append_right before List.mem_cons_self

/-- A question that mentions a category has a first one. -/
theorem MentionsCategory.exists_first (h : MentionsCategory P normalized category) :
    ∃ first, categoryOf P normalized = some first := by
  obtain ⟨entry, hentry, -, hstated⟩ := h
  obtain ⟨found, hfound⟩ : ∃ found,
      answerAliases.find? (fun entry => mentioned P normalized entry.2) = some found :=
    Option.isSome_iff_exists.mp
      (List.find?_isSome.mpr ⟨entry, hentry, mentioned_iff.mpr hstated⟩)
  exact ⟨found.1, by rw [categoryOf, hfound]; rfl⟩

/-- A category has one line of the table. -/
theorem ALIASES_keys_nodup : (answerAliases.map Prod.fst).Nodup := by decide

theorem aliases_unique {other : List Str} (h : (category, aliases) ∈ answerAliases)
    (h' : (category, other) ∈ answerAliases) : aliases = other := by
  have hentry := List.inj_on_of_nodup_map ALIASES_keys_nodup h h' rfl
  exact congrArg Prod.snd hentry

/-! ## What is known -/

variable {A : AnswerPython} {r : AnswerResolver} {question : Str} {answer : AnswerResolution}

namespace AnswerResolver

/-- The question is answered with what is known of a category. -/
def AnswersFrom (A : AnswerPython) (r : AnswerResolver) (question : Str)
    (category : AnswerCategory) : Prop :=
  ∃ answer, r.known A question = some (category, answer) ∧ r.resolve A question = .ok answer

/-- The question is answered with the fact of a category. -/
def AnswersFromProfile (A : AnswerPython) (r : AnswerResolver) (question : Str)
    (category : AnswerCategory) : Prop :=
  ∃ answer, r.known A question = some (category, answer) ∧ r.resolve A question = .ok answer ∧
    answer.source = some "candidate_profile"

theorem resolve_of_known (h : r.known A question = some (category, answer)) :
    r.resolve A question = .ok answer := by
  rw [resolve, h]

theorem known_eq_some_iff : r.known A question = some (category, answer) ↔
    (∃ aliases, IsFirst A.toPython (normalizeQuestion A.toPython question) category aliases) ∧
      r.categoryAnswer A category = some answer := by
  simp only [known, Option.bind_eq_some_iff, Option.map_eq_some_iff, Prod.mk.injEq,
    category_eq_some_iff]
  constructor
  · rintro ⟨_, hfirst, _, hanswer, rfl, rfl⟩
    exact ⟨hfirst, hanswer⟩
  · rintro ⟨hfirst, hanswer⟩
    exact ⟨category, hfirst, answer, hanswer, rfl, rfl⟩

theorem answersFrom_iff : r.AnswersFrom A question category ↔
    (∃ aliases, IsFirst A.toPython (normalizeQuestion A.toPython question) category aliases) ∧
      ∃ answer, r.categoryAnswer A category = some answer := by
  constructor
  · rintro ⟨answer, hknown, -⟩
    obtain ⟨hfirst, hanswer⟩ := known_eq_some_iff.mp hknown
    exact ⟨hfirst, answer, hanswer⟩
  · rintro ⟨hfirst, answer, hanswer⟩
    have hknown := known_eq_some_iff.mpr ⟨hfirst, hanswer⟩
    exact ⟨answer, hknown, resolve_of_known hknown⟩

/-- The answers of the bank name it as their source. -/
theorem bankLoop_source {normalized : Str} {entries : List Json}
    (h : bankLoop A normalized entries = .ok (some answer)) :
    answer.source = some "answer_bank" := by
  induction entries with
  | nil => cases h
  | cons entry entries ih =>
    rw [bankLoop] at h
    obtain ⟨patterns, -, h⟩ := Raising.bind_eq_ok.mp h
    obtain ⟨found, -, h⟩ := Raising.bind_eq_ok.mp h
    cases found with
    | true =>
      obtain rfl := Option.some.inj (Except.ok.inj h)
      rfl
    | false => exact ih h

theorem unmatched_source {category : Option AnswerCategory} {normalized : Str}
    (h : r.unmatched A category normalized = .ok answer) : answer.source = none := by
  rw [unmatched] at h
  split_ifs at h
  · obtain rfl := Except.ok.inj h
    rfl
  · obtain ⟨relevant, -, h⟩ := Raising.bind_eq_ok.mp h
    obtain rfl := Except.ok.inj h
    rfl

/-- **An answer** is what is known of the first category, or, where nothing is known of it, one of
the bank or none at all. -/
theorem resolve_cases (h : r.resolve A question = .ok answer) :
    (∃ category, r.known A question = some (category, answer)) ∨
      r.known A question = none ∧
        (r.bankAnswer A (normalizeQuestion A.toPython question) = .ok (some answer) ∧
          answer.source = some "answer_bank" ∨ answer.source = none) := by
  unfold resolve at h
  cases hknown : r.known A question with
  | some entry =>
    rw [hknown] at h
    obtain rfl := Except.ok.inj h
    exact .inl ⟨entry.1, rfl⟩
  | none =>
    rw [hknown] at h
    refine .inr ⟨rfl, ?_⟩
    obtain ⟨found, hbank, h⟩ := Raising.bind_eq_ok.mp h
    cases found with
    | some found =>
      obtain rfl := Except.ok.inj h
      obtain ⟨entries, -, hloop⟩ := Raising.bind_eq_ok.mp hbank
      exact .inl ⟨hbank, bankLoop_source hloop⟩
    | none => exact .inr (unmatched_source h)

/-- The answers from the profile are those that name it as their source. -/
theorem answersFromProfile_iff : (∃ category, r.AnswersFromProfile A question category) ↔
    ∃ answer, r.resolve A question = .ok answer ∧ answer.source = some "candidate_profile" := by
  constructor
  · rintro ⟨category, answer, -, hresolve, hsource⟩
    exact ⟨answer, hresolve, hsource⟩
  · rintro ⟨answer, hresolve, hsource⟩
    rcases resolve_cases hresolve with ⟨category, hknown⟩ | ⟨-, ⟨-, hbank⟩ | hnone⟩
    · exact ⟨category, answer, hknown, hresolve, hsource⟩
    · exact absurd (Option.some.inj (hsource.symm.trans hbank)) (by decide)
    · rw [hsource] at hnone
      cases hnone

/-- Something is known of a category exactly if it has a fact or a structured answer. -/
theorem categoryAnswer_eq_none_iff : r.categoryAnswer A category = none ↔
    r.fact category = none ∧ structuredAnswers r.answers category = none := by
  rw [categoryAnswer, Option.or_eq_none_iff, profileAnswer, structuredAnswer,
    Option.map_eq_none_iff, Option.map_eq_none_iff]

/-- What comes from the profile is a fact. -/
theorem categoryAnswer_profile (h : r.categoryAnswer A category = some answer) :
    answer.source = some "candidate_profile" ↔ (r.fact category).isSome = true := by
  rw [categoryAnswer, profileAnswer] at h
  cases hfact : r.fact category with
  | some fact =>
    rw [hfact] at h
    obtain rfl := Option.some.inj h
    exact ⟨fun _ => rfl, fun _ => rfl⟩
  | none =>
    rw [hfact, Option.map_none, Option.none_or, structuredAnswer] at h
    obtain ⟨value, -, rfl⟩ := Option.map_eq_some_iff.mp h
    constructor
    · intro hsource
      exact absurd (Option.some.inj hsource) (by decide)
    · exact fun hnone => absurd hnone Bool.false_ne_true

end AnswerResolver

open AnswerResolver

/-! ## Examples of questions -/

/-- The tables of ASCII texts. -/
def AnswerPython.ascii : AnswerPython where
  toPython := .ascii
  str _ := []

/-- A candidate who lives in Austin. -/
def austinCandidate : CandidateProfile where
  personal :=
    ⟨"Ada".toList, "Byron".toList, "ada@example.com".toList, none, some "Austin, TX".toList⟩
  education := ⟨"State".toList, "BS".toList, "Mathematics".toList, none, none⟩
  links := ⟨none, none, none⟩
  workAuthorization := ⟨true, false⟩

/-- The resolver of a profile and of stories, without answers and rules. -/
def defaultResolver (profile : Option CandidateProfile) (stories : Entries) : AnswerResolver where
  profile := profile
  answers := []
  stories := .dict stories
  generationAllowed := defaultGenerationAllowed
  neverInvent := protectedCategories

theorem init_default (profile : Option CandidateProfile) (stories : Entries) :
    AnswerResolver.init .ascii profile none (some (.dict [("stories".toList, .dict stories)]))
      none = .ok (defaultResolver profile stories) := rfl

/-! ## Answers -/

/-- **Protected questions** get the answer of a protected category that they mention, or none,
exactly if nothing is known of an unprotected category that comes first. -/
theorem protected_answer_iff (A : AnswerPython) (r : AnswerResolver) (question : Str) :
    (MentionsProtected A.toPython (normalizeQuestion A.toPython question) →
      ∀ category, r.AnswersFrom A question category →
        category.value ∈ protectedCategories ∧
          MentionsCategory A.toPython (normalizeQuestion A.toPython question) category) ↔
      (MentionsProtected A.toPython (normalizeQuestion A.toPython question) →
        ∀ category aliases,
          IsFirst A.toPython (normalizeQuestion A.toPython question) category aliases →
          category.value ∉ protectedCategories →
          r.fact category = none ∧ structuredAnswers r.answers category = none) := by
  refine imp_congr_right fun _ => ?_
  constructor
  · intro h category aliases hfirst hunprotected
    rw [← categoryAnswer_eq_none_iff (A := A)]
    by_contra hknown
    obtain ⟨answer, hanswer⟩ := Option.ne_none_iff_exists'.mp hknown
    exact hunprotected (h category (answersFrom_iff.mpr ⟨⟨aliases, hfirst⟩, answer, hanswer⟩)).1
  · intro h category hanswers
    obtain ⟨⟨aliases, hfirst⟩, answer, hanswer⟩ := answersFrom_iff.mp hanswers
    refine ⟨?_, hfirst.mentions⟩
    by_contra hunprotected
    have hnone := categoryAnswer_eq_none_iff (A := A).mpr (h category aliases hfirst hunprotected)
    rw [hnone] at hanswer
    cases hanswer

/-- A city stands before the authorization in the table. -/
theorem authorized_in_this_city :
    ¬∀ (A : AnswerPython) (profile : Option CandidateProfile) (answers stories rules : Option Json)
      (r : AnswerResolver) (question : Str),
      AnswerResolver.init A profile answers stories rules = .ok r →
      MentionsProtected A.toPython (normalizeQuestion A.toPython question) →
      ∀ category, r.AnswersFrom A question category →
        category.value ∈ protectedCategories ∧
          MentionsCategory A.toPython (normalizeQuestion A.toPython question) category := by
  intro h
  have hmentions : MentionsProtected Python.ascii (normalizeQuestion Python.ascii
      "Are you legally authorized to work in this city?".toList) :=
    ⟨.workAuthorization, by decide, _, List.mem_of_getElem? (i := 11) rfl, rfl,
      mentioned_iff.mp (by decide +kernel)⟩
  have hfirst : categoryOf Python.ascii (normalizeQuestion Python.ascii
      "Are you legally authorized to work in this city?".toList) = some .location := by
    decide +kernel
  have hprotected := (h .ascii (some austinCandidate) none _ none _ _ (init_default _ []) hmentions
    .location (answersFrom_iff.mpr ⟨category_eq_some_iff.mp hfirst, _, rfl⟩)).1
  exact absurd hprotected (by decide)

/-- **Personal facts** answer questions with an alias as whole words exactly if the first category
that a question states has no fact or has an alias between spaces or ends. -/
theorem whole_word_answer_iff (A : AnswerPython) (r : AnswerResolver) (question : Str) :
    (∀ category, r.AnswersFromProfile A question category →
      ∃ entry ∈ answerAliases, entry.1 = category ∧ ∃ name ∈ entry.2,
        (normalizeQuestion A.toPython name).splitOn ' ' <:+:
          (normalizeQuestion A.toPython question).splitOn ' ') ↔
      ∀ category aliases,
        IsFirst A.toPython (normalizeQuestion A.toPython question) category aliases →
        (r.fact category).isSome = true →
        ∃ name ∈ aliases, Words.Stands ' ' (normalizeQuestion A.toPython name)
          (normalizeQuestion A.toPython question) := by
  constructor
  · intro h category aliases hfirst hfact
    obtain ⟨answer, hanswer⟩ : ∃ answer, r.categoryAnswer A category = some answer := by
      refine Option.ne_none_iff_exists'.mp fun hnone => ?_
      rw [(categoryAnswer_eq_none_iff.mp hnone).1] at hfact
      cases hfact
    have hknown := known_eq_some_iff.mpr ⟨⟨aliases, hfirst⟩, hanswer⟩
    obtain ⟨⟨_, other⟩, hentry, rfl, name, hname, hwords⟩ := h category
      ⟨answer, hknown, resolve_of_known hknown, (categoryAnswer_profile hanswer).mpr hfact⟩
    rw [aliases_unique hfirst.mem hentry]
    exact ⟨name, hname, Words.splitOn_infix_iff.mp hwords⟩
  · rintro h category ⟨answer, hknown, -, hsource⟩
    obtain ⟨⟨aliases, hfirst⟩, hanswer⟩ := known_eq_some_iff.mp hknown
    obtain ⟨name, hname, hstands⟩ := h category aliases hfirst
      ((categoryAnswer_profile hanswer).mp hsource)
    exact ⟨(category, aliases), hfirst.mem, rfl, name, hname, Words.splitOn_infix_iff.mpr hstands⟩

/-- A word with a city in it. -/
theorem ethnicity_has_city :
    ¬∀ (A : AnswerPython) (profile : Option CandidateProfile) (answers stories rules : Option Json)
      (r : AnswerResolver) (question : Str),
      AnswerResolver.init A profile answers stories rules = .ok r →
      ∀ category, r.AnswersFromProfile A question category →
        ∃ entry ∈ answerAliases, entry.1 = category ∧ ∃ name ∈ entry.2,
          (normalizeQuestion A.toPython name).splitOn ' ' <:+:
            (normalizeQuestion A.toPython question).splitOn ' ' := by
  intro h
  have hfirst : categoryOf Python.ascii (normalizeQuestion Python.ascii
      "What is your ethnicity?".toList) = some .location := by
    decide +kernel
  have hknown : (defaultResolver (some austinCandidate) []).known .ascii
      "What is your ethnicity?".toList =
        some (.location, .ofAnswer "Austin, TX".toList "candidate_profile") :=
    known_eq_some_iff.mpr ⟨category_eq_some_iff.mp hfirst, rfl⟩
  have hwords := h .ascii (some austinCandidate) none _ none _ _ (init_default _ []) .location
    ⟨_, hknown, resolve_of_known hknown, rfl⟩
  revert hwords
  decide +kernel

/-! ## The answer bank -/

/-- The bank has no pattern that matches a question. -/
def NoPatternMatches (A : AnswerPython) (r : AnswerResolver) (normalized : Str) : Prop :=
  ∃ entries, (r.answers.getOr "application_answers" (.list [])).iterate = .ok entries ∧
    ∀ entry ∈ entries, ∃ patterns, entry.patterns.iterate = .ok patterns ∧
      ∀ pattern ∈ patterns, patternMatches A normalized pattern = .ok false

theorem bankLoop_eq_none_iff {entries : List Json} :
    bankLoop A normalized entries = .ok none ↔
      ∀ entry ∈ entries, ∃ patterns, entry.patterns.iterate = .ok patterns ∧
        ∀ pattern ∈ patterns, patternMatches A normalized pattern = .ok false := by
  induction entries with
  | nil => exact ⟨fun _ entry hentry => absurd hentry List.not_mem_nil, fun _ => rfl⟩
  | cons entry entries ih =>
    rw [bankLoop, Raising.bind_eq_ok, List.forall_mem_cons, ← ih]
    constructor
    · rintro ⟨patterns, hpatterns, h⟩
      obtain ⟨found, hfound, h⟩ := Raising.bind_eq_ok.mp h
      cases found with
      | true => cases h
      | false => exact ⟨⟨patterns, hpatterns, Raising.anyM_eq_false.mp hfound⟩, h⟩
    · rintro ⟨⟨patterns, hpatterns, hnone⟩, hrest⟩
      exact ⟨patterns, hpatterns,
        Raising.bind_eq_ok.mpr ⟨false, Raising.anyM_eq_false.mpr hnone, hrest⟩⟩

theorem bankAnswer_eq_none_iff :
    r.bankAnswer A normalized = .ok none ↔ NoPatternMatches A r normalized := by
  simp only [AnswerResolver.bankAnswer, NoPatternMatches, Raising.bind_eq_ok,
    bankLoop_eq_none_iff]

/-- What the bank answers is not generated. -/
theorem bankLoop_not_generated {entries : List Json}
    (h : bankLoop A normalized entries = .ok (some answer)) :
    answer.generationAllowed = false := by
  induction entries with
  | nil => cases h
  | cons entry entries ih =>
    obtain ⟨patterns, -, h⟩ := Raising.bind_eq_ok.mp h
    obtain ⟨found, -, h⟩ := Raising.bind_eq_ok.mp h
    cases found with
    | true =>
      obtain rfl := Option.some.inj (Except.ok.inj h)
      rfl
    | false => exact ih h

/-! ## Generation -/

namespace AnswerResolver

/-- Nothing known is generated. -/
theorem categoryAnswer_not_generated (h : r.categoryAnswer A category = some answer) :
    answer.generationAllowed = false := by
  rw [categoryAnswer, profileAnswer, structuredAnswer] at h
  rcases Option.or_eq_some_iff.mp h with h | ⟨-, h⟩ <;>
    (obtain ⟨_, -, rfl⟩ := Option.map_eq_some_iff.mp h; rfl)

/-- The answer to an unmatched question may be generated exactly if it is allowed and not protected,
and there are stories to read. -/
theorem unmatched_generates_iff {category : Option AnswerCategory} :
    (∃ answer, r.unmatched A category normalized = .ok answer ∧ answer.generationAllowed = true) ↔
      r.isProtected category normalized = false ∧ r.allowed category normalized = true ∧
        ∃ names, r.stories.iterate = .ok names := by
  unfold unmatched
  cases hprotected : r.isProtected category normalized with
  | true =>
    constructor
    · rintro ⟨answer, h, hgenerated⟩
      obtain rfl := Except.ok.inj h
      cases hgenerated
    · exact fun h => absurd h.1.symm Bool.false_ne_true
  | false =>
    rw [if_neg Bool.false_ne_true]
    constructor
    · rintro ⟨answer, h, hgenerated⟩
      obtain ⟨names, hnames, h⟩ := Raising.bind_eq_ok.mp h
      obtain rfl := Except.ok.inj h
      have hallowed : r.allowed category normalized = true := hgenerated
      rw [hallowed, relevant, if_pos rfl] at hnames
      obtain ⟨items, hitems, -⟩ := Raising.map_eq_ok.mp hnames
      exact ⟨rfl, hallowed, items, hitems⟩
    · rintro ⟨-, hallowed, items, hitems⟩
      have hnames : r.relevant A (r.allowed category normalized) =
          .ok ((items.map A.shown).insertionSort (· ≤ ·)) := by
        rw [hallowed, relevant, if_pos rfl, storyNames, hitems]
        rfl
      exact ⟨_, Raising.bind_eq_ok.mpr ⟨_, hnames, rfl⟩, hallowed⟩

/-- **Generation**: nothing is known of the question, and it is allowed and not protected. -/
theorem resolve_generates_iff :
    (∃ answer, r.resolve A question = .ok answer ∧ answer.generationAllowed = true) ↔
      r.known A question = none ∧
        NoPatternMatches A r (normalizeQuestion A.toPython question) ∧
        ∃ answer, r.unmatched A (categoryOf A.toPython (normalizeQuestion A.toPython question))
          (normalizeQuestion A.toPython question) = .ok answer ∧
          answer.generationAllowed = true := by
  unfold resolve
  cases hknown : r.known A question with
  | some known =>
    obtain ⟨category, answer⟩ := known
    constructor
    · rintro ⟨_, h, hgenerated⟩
      obtain rfl := Except.ok.inj h
      rw [categoryAnswer_not_generated (known_eq_some_iff.mp hknown).2] at hgenerated
      cases hgenerated
    · exact fun h => absurd h.1 (Option.some_ne_none _)
  | none =>
    rw [← bankAnswer_eq_none_iff]
    constructor
    · rintro ⟨answer, h, hgenerated⟩
      obtain ⟨found, hfound, h⟩ := Raising.bind_eq_ok.mp h
      cases found with
      | some banked =>
        obtain rfl := Except.ok.inj h
        obtain ⟨entries, -, hloop⟩ := Raising.bind_eq_ok.mp hfound
        rw [bankLoop_not_generated hloop] at hgenerated
        cases hgenerated
      | none => exact ⟨rfl, hfound, answer, h, hgenerated⟩
    · rintro ⟨-, hbank, answer, h, hgenerated⟩
      exact ⟨answer, Raising.bind_eq_ok.mpr ⟨none, hbank, h⟩, hgenerated⟩

/-- The stories of a question of which no answer is generated. -/
theorem getStories_of_not_generated {stories : List (Str × Json)}
    (hnone : ∀ answer, r.resolve A question = .ok answer → answer.generationAllowed = false)
    (h : r.getStories A none (some question) = .ok stories) : stories = [] := by
  obtain ⟨selected, hselected, h⟩ := Raising.bind_eq_ok.mp h
  obtain ⟨answer, hanswer, rfl⟩ := Raising.map_eq_ok.mp hselected
  rw [hnone answer hanswer] at h
  obtain ⟨items, hitems, h⟩ := Raising.bind_eq_ok.mp h
  obtain rfl := Except.ok.inj hitems
  exact (Except.ok.inj h).symm

end AnswerResolver

/-- What lets a question with a protected alias pass: an unprotected category comes first, nothing
known or configured stops the question, and some rule allows it. -/
structure PassesGuard (A : AnswerPython) (r : AnswerResolver) (normalized : Str) : Prop where
  mentions : MentionsProtected A.toPython normalized
  first : ∃ category aliases, IsFirst A.toPython normalized category aliases ∧
    category.value ∉ protectedCategories ∧ r.fact category = none ∧
    structuredAnswers r.answers category = none ∧
    (underscored category.value ∈ r.generationAllowed ∨
      ∃ phrase ∈ r.generationAllowed, spaced phrase <:+: normalized)
  bank : NoPatternMatches A r normalized
  phrases : ∀ phrase ∈ r.neverInvent, ¬spaced phrase <:+: normalized
  terms : ∀ term ∈ protectedTerms, ¬term <:+: normalized
  stories : ∃ names, r.stories.iterate = .ok names

theorem isProtected_eq_false_iff :
    r.isProtected (some category) normalized = false ↔
      category.value ∉ protectedCategories ∧
        (∀ phrase ∈ r.neverInvent, ¬spaced phrase <:+: normalized) ∧
          ∀ term ∈ protectedTerms, ¬term <:+: normalized := by
  simp [isProtected, configuredProtected, and_assoc]

theorem allowed_eq_true_iff :
    r.allowed (some category) normalized = true ↔
      underscored category.value ∈ r.generationAllowed ∨
        ∃ phrase ∈ r.generationAllowed, spaced phrase <:+: normalized := by
  simp [allowed]

/-- A question of a first category gets past the guard exactly if its answer may be generated. -/
theorem passesGuard_iff (hmentions : MentionsProtected A.toPython
    (normalizeQuestion A.toPython question)) :
    PassesGuard A r (normalizeQuestion A.toPython question) ↔
      ∃ answer, r.resolve A question = .ok answer ∧ answer.generationAllowed = true := by
  rw [resolve_generates_iff]
  obtain ⟨_, -, hcategory⟩ := id hmentions
  obtain ⟨first, hfirst⟩ := hcategory.exists_first
  have hknown : r.known A question = none ↔
      r.fact first = none ∧ structuredAnswers r.answers first = none := by
    rw [known, hfirst, Option.bind_some, Option.map_eq_none_iff, categoryAnswer_eq_none_iff]
  rw [hfirst, unmatched_generates_iff, isProtected_eq_false_iff, allowed_eq_true_iff, hknown]
  constructor
  · rintro ⟨-, ⟨category, aliases, hcat, hunprotected, hfact, hstructured, hallowed⟩, hbank,
      hphrases, hterms, hstories⟩
    obtain rfl := Option.some.inj ((category_eq_some_iff.mpr ⟨aliases, hcat⟩).symm.trans hfirst)
    exact ⟨⟨hfact, hstructured⟩, hbank, ⟨hunprotected, hphrases, hterms⟩, hallowed, hstories⟩
  · rintro ⟨⟨hfact, hstructured⟩, hbank, ⟨hunprotected, hphrases, hterms⟩, hallowed, hstories⟩
    obtain ⟨aliases, hcat⟩ := category_eq_some_iff.mp hfirst
    exact ⟨hmentions, ⟨first, aliases, hcat, hunprotected, hfact, hstructured, hallowed⟩, hbank,
      hphrases, hterms, hstories⟩

/-- A `never_invent` phrase always protects a question. -/
theorem not_generated_of_neverInvent
    (h : ∃ phrase ∈ r.neverInvent, spaced phrase <:+: normalizeQuestion A.toPython question) :
    ¬∃ answer, r.resolve A question = .ok answer ∧ answer.generationAllowed = true := by
  obtain ⟨phrase, hphrase, hinfix⟩ := h
  rw [resolve_generates_iff, unmatched_generates_iff]
  rintro ⟨-, -, hunprotected, -⟩
  have hconfigured : r.configuredProtected (normalizeQuestion A.toPython question) = true :=
    List.any_eq_true.mpr ⟨phrase, hphrase, decide_eq_true hinfix⟩
  rw [isProtected, hconfigured, Bool.or_true, Bool.true_or] at hunprotected
  cases hunprotected

/-- **Protected questions** are never generated, exactly if they do not get past the guard. -/
theorem protected_generation_iff (A : AnswerPython) (r : AnswerResolver) (question : Str) :
    (MentionsProtected A.toPython (normalizeQuestion A.toPython question) ∨
        (∃ phrase ∈ r.neverInvent, spaced phrase <:+: normalizeQuestion A.toPython question) →
      (∀ answer, r.resolve A question = .ok answer → answer.generationAllowed = false) ∧
        ∀ stories, r.getStories A none (some question) = .ok stories → stories = []) ↔
      ¬PassesGuard A r (normalizeQuestion A.toPython question) := by
  constructor
  · intro h hpasses
    obtain ⟨answer, hanswer, hgenerated⟩ := (passesGuard_iff hpasses.mentions).mp hpasses
    rw [(h (.inl hpasses.mentions)).1 answer hanswer] at hgenerated
    cases hgenerated
  · intro hpasses hquestion
    have hnone : ¬∃ answer, r.resolve A question = .ok answer ∧
        answer.generationAllowed = true := by
      rcases hquestion with hmentions | hphrase
      · exact fun h => hpasses ((passesGuard_iff hmentions).mpr h)
      · exact not_generated_of_neverInvent hphrase
    have hfalse : ∀ answer, r.resolve A question = .ok answer → answer.generationAllowed = false :=
      fun answer hanswer => Bool.eq_false_iff.mpr fun h => hnone ⟨answer, hanswer, h⟩
    exact ⟨hfalse, fun stories hstories => getStories_of_not_generated hfalse hstories⟩

/-- An allowed phrase in a question on the authorization to work in a city. -/
theorem role_in_this_city :
    ¬∀ (A : AnswerPython) (profile : Option CandidateProfile) (answers stories rules : Option Json)
      (r : AnswerResolver) (question : Str),
      AnswerResolver.init A profile answers stories rules = .ok r →
      MentionsProtected A.toPython (normalizeQuestion A.toPython question) ∨
        (∃ phrase ∈ r.neverInvent, spaced phrase <:+: normalizeQuestion A.toPython question) →
      (∀ answer, r.resolve A question = .ok answer → answer.generationAllowed = false) ∧
        ∀ stories, r.getStories A none (some question) = .ok stories → stories = [] := by
  intro h
  have hmentions : MentionsProtected Python.ascii (normalizeQuestion Python.ascii
      "Why role: are you authorized to work in this city?".toList) :=
    ⟨.workAuthorization, by decide, _, List.mem_of_getElem? (i := 11) rfl, rfl,
      mentioned_iff.mp (by decide +kernel)⟩
  have hnone := (h .ascii none none _ none _ _
    (init_default none [("leadership".toList, .str "A team of two.".toList)])
    (.inl hmentions)).2 [("leadership".toList, .str "A team of two.".toList)] rfl
  cases hnone

end JobPing
