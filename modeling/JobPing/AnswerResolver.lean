import JobPing.Json
import JobPing.Raising
import JobPing.UrlParse
import Mathlib.Data.Char
import Mathlib.Data.Rat.Init
import Mathlib.Data.List.Infix
import Mathlib.Data.List.Lex
import Mathlib.Data.List.Sort

/-!
# Answers to application questions

`AnswerResolver` of `app/applications/resolver.py`. A question is put in the first category of a
table an alias of which its normalised text contains. It is answered with what the candidate
profile, the structured answers or the answer bank know; otherwise the rules say whether an answer
may be generated, and from which stories.

The Unicode tables and the `str` of a value that is no text are parameters.
-/

namespace JobPing

/-- What the program reads of Python. -/
structure AnswerPython extends Python where
  /-- `str` of a value that is no text. -/
  str : Json → Str

namespace AnswerPython

variable (A : AnswerPython)

/-- `str`. -/
def shown : Json → Str
  | .str value => value
  | value => A.str value

end AnswerPython

/-! ## Questions -/

/-- `string.punctuation`. -/
def isPunctuation (c : Char) : Bool :=
  let n := c.toNat
  33 ≤ n && n ≤ 47 || 58 ≤ n && n ≤ 64 || 91 ≤ n && n ≤ 96 || 123 ≤ n && n ≤ 126

/-- `normalize_question`. -/
def normalizeQuestion (P : Python) (value : Str) : Str :=
  P.squeeze ((P.strip (P.casefold value)).filter fun c => !isPunctuation c)

/-- The keys of `ALIASES`. -/
inductive AnswerCategory
  | firstName | lastName | email | phone | location | school | degree | major | linkedin | github
  | portfolio | workAuthorization | sponsorship | relocate | graduationDate | gpa
  deriving DecidableEq

def AnswerCategory.value : AnswerCategory → Str
  | .firstName => "first_name".toList
  | .lastName => "last_name".toList
  | .email => "email".toList
  | .phone => "phone".toList
  | .location => "location".toList
  | .school => "school".toList
  | .degree => "degree".toList
  | .major => "major".toList
  | .linkedin => "linkedin".toList
  | .github => "github".toList
  | .portfolio => "portfolio".toList
  | .workAuthorization => "work_authorization".toList
  | .sponsorship => "sponsorship".toList
  | .relocate => "relocate".toList
  | .graduationDate => "graduation_date".toList
  | .gpa => "gpa".toList

/-- `ALIASES`, in the order of the dictionary. -/
def answerAliases : List (AnswerCategory × List Str) :=
  [(.firstName, ["first name", "given name", "legal first name"].map String.toList),
    (.lastName, ["last name", "surname", "family name", "legal last name"].map String.toList),
    (.email, ["email", "email address", "e mail"].map String.toList),
    (.phone, ["phone", "phone number", "telephone", "mobile number"].map String.toList),
    (.location, ["location", "current location", "city", "where do you live"].map String.toList),
    (.school, ["school", "university", "college", "educational institution"].map String.toList),
    (.degree, ["degree", "degree type"].map String.toList),
    (.major, ["major", "field of study", "course of study"].map String.toList),
    (.linkedin, ["linkedin", "linkedin profile", "linkedin url"].map String.toList),
    (.github, ["github", "github profile", "github url"].map String.toList),
    (.portfolio, ["portfolio", "portfolio url", "personal website"].map String.toList),
    (.workAuthorization,
      ["authorized to work", "legally authorized to work", "authorization to work",
        "work authorization"].map String.toList),
    (.sponsorship,
      ["require sponsorship", "need sponsorship", "future sponsorship", "visa sponsorship",
        "sponsorship"].map String.toList),
    (.relocate, ["relocate", "willing to relocate", "open to relocation"].map String.toList),
    (.graduationDate,
      ["graduation date", "expected graduation", "graduation month"].map String.toList),
    (.gpa, ["gpa", "grade point average"].map String.toList)]

/-- `PROTECTED_CATEGORIES`. -/
def protectedCategories : List Str :=
  ["citizenship", "work_authorization", "sponsorship", "security_clearance", "criminal_history",
    "gpa", "graduation_date"].map String.toList

/-- The terms that protect a question, whatever the rules say. -/
def protectedTerms : List Str :=
  ["citizenship", "security clearance", "criminal history", "visa"].map String.toList

/-- An alias stands somewhere in the normalised text. -/
def mentioned (P : Python) (normalized : Str) (aliases : List Str) : Bool :=
  (aliases.map (normalizeQuestion P)).any fun name =>
    name = normalized || decide (name <:+: normalized)

/-- `_category`. -/
def categoryOf (P : Python) (normalized : Str) : Option AnswerCategory :=
  (answerAliases.find? fun entry => mentioned P normalized entry.2).map (·.1)

/-! ## The candidate -/

structure PersonalInfo where
  firstName : Str
  lastName : Str
  email : Str
  phone : Option Str
  location : Option Str

structure EducationInfo where
  school : Str
  degree : Str
  major : Str
  graduationDate : Option Str
  gpa : Option Str

structure CandidateLinks where
  linkedin : Option Str
  github : Option Str
  portfolio : Option Str

structure WorkAuthorization where
  authorizedUs : Bool
  requiresSponsorship : Bool

/-- `CandidateProfile`, without the path of the resume. -/
structure CandidateProfile where
  personal : PersonalInfo
  education : EducationInfo
  links : CandidateLinks
  workAuthorization : WorkAuthorization

def yesOrNo (value : Bool) : Str := if value then "Yes".toList else "No".toList

/-- `_fact_values`. -/
def CandidateProfile.fact (p : CandidateProfile) : AnswerCategory → Option Str
  | .firstName => some p.personal.firstName
  | .lastName => some p.personal.lastName
  | .email => some p.personal.email
  | .phone => p.personal.phone
  | .location => p.personal.location
  | .school => some p.education.school
  | .degree => some p.education.degree
  | .major => some p.education.major
  | .graduationDate => p.education.graduationDate
  | .gpa => p.education.gpa
  | .linkedin => p.links.linkedin
  | .github => p.links.github
  | .portfolio => p.links.portfolio
  | .workAuthorization => some (yesOrNo p.workAuthorization.authorizedUs)
  | .sponsorship => some (yesOrNo p.workAuthorization.requiresSponsorship)
  | .relocate => none

/-! ## The resolver -/

/-- What a call raises. -/
inductive AnswerError
  /-- A value that cannot be iterated, or a pattern that is no text. -/
  | typeError
  | valueError (message : Str)

/-- `d.get(key, default)`. -/
def Entries.getOr (d : Entries) (key : String) (default : Json) : Json :=
  (d.lookup key.toList).getD default

/-- The items a loop over a value goes through. -/
def Json.iterate : Json → Except AnswerError (List Json)
  | .list items => .ok items
  | .dict items => .ok (items.map fun item => .str item.1)
  | .str value => .ok (value.map fun c => .str [c])
  | _ => .error .typeError

/-- `AnswerResolution`. -/
structure AnswerResolution where
  matched : Bool
  answer : Option Str := none
  source : Option String := none
  generationAllowed : Bool := false
  confidence : ℚ := 0
  relevantStories : List Str := []
  requiresReview : Bool := false

/-- `AnswerResolver`. -/
structure AnswerResolver where
  profile : Option CandidateProfile
  answers : Entries
  stories : Json
  generationAllowed : List Str
  neverInvent : List Str

/-- `_load_json`; what a file holds need not be an object. -/
def loadJson : Option Json → Except AnswerError Entries
  | none => .ok []
  | some (.dict items) => .ok items
  | some _ => .error (.valueError "answer configuration must be a JSON object".toList)

/-- `s.replace(old, new)` for characters. -/
def replaceChar (old new : Char) (s : Str) : Str := s.map fun c => if c = old then new else c

/-- `phrase.replace("_", " ")`. -/
def spaced (phrase : Str) : Str := replaceChar '_' ' ' phrase

/-- `phrase.replace(" ", "_")`. -/
def underscored (phrase : Str) : Str := replaceChar ' ' '_' phrase

def defaultGenerationAllowed : List Str :=
  ["why_company", "why_role", "project_description", "technical_challenge", "leadership",
    "failure"].map String.toList

variable (A : AnswerPython)

/-- The phrases of a rule. -/
def rulePhrases (configured : Json) : Except AnswerError (List Str) :=
  configured.iterate.map fun items =>
    items.map fun item => underscored (normalizeQuestion A.toPython (spaced (A.shown item)))

/-- **`AnswerResolver.__init__`**. -/
def AnswerResolver.init (profile : Option CandidateProfile) (answers stories rules : Option Json) :
    Except AnswerError AnswerResolver := do
  let answers ← loadJson answers
  let stories ← loadJson stories
  let configuredRules ← loadJson rules
  let generationAllowed ← rulePhrases A (configuredRules.getOr "generation_allowed"
    (.list (defaultGenerationAllowed.map .str)))
  let neverInvent ← rulePhrases A (configuredRules.getOr "never_invent"
    (.list (protectedCategories.map .str)))
  return { profile, answers, stories := stories.getOr "stories" (.dict []), generationAllowed,
           neverInvent }

/-- A value that is not `None`. -/
def Json.notNone : Json → Option Json
  | .null => none
  | value => some value

/-- `section.get(key)` of a dictionary; no other value has one. -/
def structuredValue (answers : Entries) (field key : String) : Option Json :=
  ((answers.getOr field (.dict [])).entries.get key).notNone

/-- `structured_answers`. -/
def structuredAnswers (answers : Entries) : AnswerCategory → Option Json
  | .workAuthorization => structuredValue answers "work_authorization" "authorized_us"
  | .sponsorship => structuredValue answers "work_authorization" "requires_sponsorship"
  | .relocate => structuredValue answers "availability" "relocate"
  | _ => none

/-- An answer that is known. -/
def AnswerResolution.ofAnswer (answer : Str) (source : String) : AnswerResolution :=
  { matched := true, answer := some answer, source := some source, confidence := 1 }

namespace AnswerResolver

variable (r : AnswerResolver)

/-- `_fact_values().get(category)`. -/
def fact (category : AnswerCategory) : Option Str := r.profile.bind (·.fact category)

/-- The answer of the profile to a question of a category. -/
def profileAnswer (category : AnswerCategory) : Option AnswerResolution :=
  (r.fact category).map fun fact => .ofAnswer fact "candidate_profile"

/-- The structured answer to a question of a category. -/
def structuredAnswer (category : AnswerCategory) : Option AnswerResolution :=
  (structuredAnswers r.answers category).map fun value => .ofAnswer (A.shown value) "answer_bank"

/-- What is known of a category: the fact first. -/
def categoryAnswer (category : AnswerCategory) : Option AnswerResolution :=
  (r.profileAnswer category).or (r.structuredAnswer A category)

end AnswerResolver

/-! ## The answer bank -/

/-- A pattern stands in the text, or all of its words are among those of the text. -/
def patternMatches (normalized : Str) : Json → Except AnswerError Bool
  | .str pattern =>
    let pattern := normalizeQuestion A.toPython pattern
    .ok (decide (pattern <:+: normalized) ||
      (A.split pattern).all fun word => word ∈ A.split normalized)
  | _ => .error .typeError

/-- The patterns of an entry of the bank; only a dictionary has any. -/
def Json.patterns : Json → Json
  | .dict items => Entries.getOr items "patterns" (.list [])
  | _ => .list []

/-- The loop over the entries of the bank. -/
def bankLoop (normalized : Str) : List Json → Except AnswerError (Option AnswerResolution)
  | [] => .ok none
  | entry :: entries => do
    let patterns ← entry.patterns.iterate
    if ← patterns.anyM (patternMatches A normalized) then
      return some (.ofAnswer (A.shown (entry.entries.getOr "answer" (.str []))) "answer_bank")
    else bankLoop normalized entries

/-- The first entry of the bank with a matching pattern. -/
def AnswerResolver.bankAnswer (r : AnswerResolver) (normalized : Str) :
    Except AnswerError (Option AnswerResolution) := do
  bankLoop A normalized (← (r.answers.getOr "application_answers" (.list [])).iterate)

/-! ## Generation -/

namespace AnswerResolver

variable (r : AnswerResolver)

/-- `configured_protected`. -/
def configuredProtected (normalized : Str) : Bool :=
  r.neverInvent.any fun phrase => decide (spaced phrase <:+: normalized)

/-- `protected`. -/
def isProtected (category : Option AnswerCategory) (normalized : Str) : Bool :=
  category.any (fun category => category.value ∈ protectedCategories) ||
    r.configuredProtected normalized ||
    protectedTerms.any fun term => decide (term <:+: normalized)

/-- `allowed`. -/
def allowed (category : Option AnswerCategory) (normalized : Str) : Bool :=
  let key := underscored ((category.map AnswerCategory.value).getD normalized)
  key ∈ r.generationAllowed ||
    (r.generationAllowed.map spaced).any fun phrase => decide (phrase <:+: normalized)

/-- The sorted names of the stories. -/
def storyNames : Except AnswerError (List Str) :=
  r.stories.iterate.map fun names => (names.map A.shown).insertionSort (· ≤ ·)

/-- `relevant`. -/
def relevant (allowed : Bool) : Except AnswerError (List Str) :=
  if allowed then r.storyNames A else .ok []

/-- The answer to a question of which nothing is known. -/
def unmatched (category : Option AnswerCategory) (normalized : Str) :
    Except AnswerError AnswerResolution :=
  if r.isProtected category normalized then
    .ok { matched := false, requiresReview := true }
  else do
    let allowed := r.allowed category normalized
    let relevant ← r.relevant A allowed
    return { matched := false, generationAllowed := allowed, relevantStories := relevant,
             requiresReview := !allowed }

/-- The category of a question and what is known of it. -/
def known (question : Str) : Option (AnswerCategory × AnswerResolution) :=
  (categoryOf A.toPython (normalizeQuestion A.toPython question)).bind fun category =>
    (r.categoryAnswer A category).map fun answer => (category, answer)

/-- **`AnswerResolver.resolve`**. -/
def resolve (question : Str) : Except AnswerError AnswerResolution :=
  let normalized := normalizeQuestion A.toPython question
  match r.known A question with
  | some (_, answer) => .ok answer
  | none => do
    match ← r.bankAnswer A normalized with
    | some answer => return answer
    | none => r.unmatched A (categoryOf A.toPython normalized) normalized

/-! ## Stories -/

/-- `self.stories[story_id] if story_id in self.stories`: only dictionaries are read by texts. -/
def story (storyId : Str) : Except AnswerError (Option Json) :=
  match r.stories with
  | .dict items => .ok (items.lookup storyId)
  | .list items =>
    if items.any (fun | .str item => item = storyId | _ => false) then .error .typeError
    else .ok none
  | .str text => if storyId <:+: text then .error .typeError else .ok none
  | _ => .error .typeError

/-- The stories a call selects. -/
def selected (storyIds : Option (List Str)) (question : Option Str) :
    Except AnswerError (List Str) :=
  match storyIds, question with
  | some _, some _ => .error (.valueError "provide story_ids or question, not both".toList)
  | some storyIds, none => .ok storyIds
  | none, some question => (r.resolve A question).map fun resolution =>
      if resolution.generationAllowed then resolution.relevantStories else []
  | none, none => .ok []

/-- **`AnswerResolver.get_stories`**: the stories with their ids. -/
def getStories (storyIds : Option (List Str)) (question : Option Str) :
    Except AnswerError (List (Str × Json)) := do
  let selected ← r.selected A storyIds question
  if 20 < selected.length then .error (.valueError "at most 20 stories may be requested".toList)
  else
    let stories ← (selected.dedup.insertionSort (· ≤ ·)).mapM fun storyId =>
      (r.story storyId).map fun story => story.map fun story => (storyId, story)
    return stories.reduceOption

end AnswerResolver

end JobPing
