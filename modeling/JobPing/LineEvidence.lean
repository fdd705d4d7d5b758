import JobPing.Agreement
import JobPing.PageLines

/-!
# Policy evidence line by line

The policies and restrictions of a page against those of its lines, each taken alone. A sentence
without its end is heard at the end of the text only: on a line that another one follows it is cut.
The two agree exactly where what is cut is covered by what is heard (`line_evidence`).
-/

namespace JobPing

open Agreement Raising

variable {L : Libraries} {page : Page} {key : PolicyKind} {kind : RestrictionKind}
  {xs ys : List Clause}

/-! ## Facts of clauses -/

/-- A policy is its value and its quotes. -/
theorem PolicyFact.eq_of_pair {fact fact' : PolicyFact}
    (h : (fact.value, fact.evidence) = (fact'.value, fact'.evidence)) : fact = fact' := by
  obtain ⟨value, evidence, _, _⟩ := fact
  obtain ⟨value', evidence', _, _⟩ := fact'
  obtain ⟨rfl, rfl⟩ := Prod.mk.inj h
  rfl

theorem foundPolicy_tally (l : List (PolicyValue × Evidence)) :
    (foundPolicy l).map (fun fact => (fact.value, fact.evidence)) = tally .conflicting 10 l := by
  cases l with
  | nil => rfl
  | cons first rest =>
    simp only [foundPolicy, tally, agreed, List.map_cons, Option.map_some, List.all_map,
      Function.comp_def, List.map_take]

theorem foundPolicy_inj {l l' : List (PolicyValue × Evidence)} :
    foundPolicy l = foundPolicy l' ↔ tally .conflicting 10 l = tally .conflicting 10 l' := by
  rw [← foundPolicy_tally, ← foundPolicy_tally]
  exact ((Option.map_injective fun _ _ => PolicyFact.eq_of_pair).eq_iff).symm

/-- The statements of more clauses are merged as those of another document are. -/
theorem foundPolicy_append (l l' : List (PolicyValue × Evidence)) :
    foundPolicy (l ++ l') =
      ((foundPolicy l').map (mergePolicy (foundPolicy l))).or (foundPolicy l) := by
  refine Option.map_injective (fun _ _ => PolicyFact.eq_of_pair) ?_
  have happend := tally_append PolicyValue.conflicting 10 l l'
  rw [← foundPolicy_tally, ← foundPolicy_tally, ← foundPolicy_tally] at happend
  refine happend.trans ?_
  cases foundPolicy l <;> cases foundPolicy l' <;> rfl

/-- The restriction of statements with one quote each. -/
def foundRestriction (l : List (RestrictionValue × Evidence)) : Option Restriction :=
  mergeRestrictions (l.map fun s => ⟨s.1, [s.2]⟩)

theorem foundRestriction_tally (l : List (RestrictionValue × Evidence)) :
    (foundRestriction l).map (fun r => (r.value, r.evidence)) = tally .conflicting 10 l := by
  induction l using List.reverseRecOn with
  | nil => rfl
  | append_singleton l s ih =>
    have hstep : foundRestriction (l ++ [s]) =
        some (mergeRestriction (foundRestriction l) ⟨s.1, [s.2]⟩) := by
      rw [foundRestriction, mergeRestrictions, List.map_append, List.foldl_append]
      rfl
    rw [hstep, tally_append, ← ih]
    cases foundRestriction l <;> rfl

theorem Restriction.eq_of_pair {r r' : Restriction}
    (h : (r.value, r.evidence) = (r'.value, r'.evidence)) : r = r' := by
  obtain ⟨value, evidence⟩ := r
  exact congrArg (fun pair => Restriction.mk pair.1 pair.2) h

theorem foundRestriction_inj {l l' : List (RestrictionValue × Evidence)} :
    foundRestriction l = foundRestriction l' ↔
      tally .conflicting 10 l = tally .conflicting 10 l' := by
  rw [← foundRestriction_tally, ← foundRestriction_tally]
  exact ((Option.map_injective fun _ _ => Restriction.eq_of_pair).eq_iff).symm

theorem foundRestriction_append (l l' : List (RestrictionValue × Evidence)) :
    foundRestriction (l ++ l') =
      ((foundRestriction l').map (mergeRestriction (foundRestriction l))).or
        (foundRestriction l) := by
  refine Option.map_injective (fun _ _ => Restriction.eq_of_pair) ?_
  have happend := tally_append RestrictionValue.conflicting 10 l l'
  rw [← foundRestriction_tally, ← foundRestriction_tally, ← foundRestriction_tally] at happend
  refine happend.trans ?_
  cases foundRestriction l <;> cases foundRestriction l' <;> rfl

namespace Page

variable (L) (page : Page)

/-- What a clause of the page states for a policy. -/
def policyStatementsOf (key : PolicyKind) (clause : Clause) : List (PolicyValue × Evidence) :=
  ((terms.flatMap (policyStatements (pageRules L [] []) (page.document L []) clause)).filter
    (·.1 = key)).map (·.2)

/-- What a clause of the page states for a restriction. -/
def restrictionsOf (kind : RestrictionKind) (clause : Clause) : List (RestrictionValue × Evidence) :=
  let rules := pageRules L [] []
  if rules.restricts kind clause.line then
    [(if rules.isConditional clause.line then .conditional else .required,
      (page.document L []).evidence clause)]
  else []

/-- The facts of clauses of the page. -/
def clauseFacts (clauses : List Clause) : Facts where
  policies key := foundPolicy (clauses.flatMap (page.policyStatementsOf L key))
  compensation := []
  restrictions kind := foundRestriction (clauses.flatMap (page.restrictionsOf L kind))

end Page

theorem clauseFacts_append (xs ys : List Clause) :
    page.clauseFacts L (xs ++ ys) = mergeFacts (page.clauseFacts L xs) (page.clauseFacts L ys) := by
  have hpolicies : (page.clauseFacts L (xs ++ ys)).policies = (mergeFacts (page.clauseFacts L xs)
      (page.clauseFacts L ys)).policies := by
    funext key
    simp only [Page.clauseFacts, List.flatMap_append, foundPolicy_append, mergeFacts]
  have hrestrictions : (page.clauseFacts L (xs ++ ys)).restrictions =
      (mergeFacts (page.clauseFacts L xs) (page.clauseFacts L ys)).restrictions := by
    funext kind
    simp only [Page.clauseFacts, List.flatMap_append, foundRestriction_append, mergeFacts]
  exact Facts.mk.injEq .. ▸ ⟨hpolicies, rfl, hrestrictions⟩

/-- The facts of groups of clauses, merged one after another. -/
theorem foldl_clauseFacts (groups : List (List Clause)) :
    (groups.map (page.clauseFacts L)).foldl mergeFacts .empty =
      page.clauseFacts L groups.flatten := by
  induction groups using List.reverseRecOn with
  | nil => rfl
  | append_singleton groups group ih =>
    rw [List.map_append, List.foldl_append, ih, List.flatten_append, List.flatten_singleton,
      clauseFacts_append]
    rfl

/-- What `extract` computes without pay. -/
theorem extract_eq_clauseFacts (hkind : page.kind ≠ .companyPolicy) :
    extract (pageRules L [] []) (page.document L []) =
      page.clauseFacts L (quotedClauses L page.text) := by
  have hclauses : (pageRules L [] []).clauses (page.document L []).text =
      quotedClauses L page.text := rfl
  have hposting : (page.document L []).kind ≠ .companyPolicy := hkind
  have hrestrictions : ∀ kind (clauses : List Clause), mergeRestrictions
      (clauses.filterMap (clauseRestriction (pageRules L [] []) (page.document L []) kind)) =
      foundRestriction (clauses.flatMap (page.restrictionsOf L kind)) := by
    intro kind clauses
    rw [foundRestriction]
    congr 1
    induction clauses with
    | nil => rfl
    | cons clause clauses ih =>
      rw [List.filterMap_cons, List.flatMap_cons, List.map_append, ← ih, clauseRestriction,
        Page.restrictionsOf]
      split_ifs <;> rfl
  have hstatements : ∀ key (clauses : List Clause), ((clauses.flatMap fun clause => terms.flatMap
      (policyStatements (pageRules L [] []) (page.document L []) clause)).filter
        (·.1 = key)).map (·.2) = clauses.flatMap (page.policyStatementsOf L key) := by
    intro key clauses
    rw [List.filter_flatMap, List.map_flatMap]
    rfl
  rw [extract, if_neg hposting, hclauses]
  simp only [hrestrictions, hstatements]
  rfl

/-! ## Line by line -/

namespace Page

variable (L) (page : Page)

/-- An otherwise equal page with another text. -/
def withText (text : Str) : Page := { page with text := text }

/-- The policies and restrictions that `extract` finds. -/
def found : Except Raised Facts := (page.findings L).map (·.1)

/-- What it finds in the lines of the text, each taken alone: per field the common value, or a
conflict, with the first ten quotes. -/
def foundByLine : Except Raised Facts :=
  ((lines page.text).mapM fun line => (page.withText line).found L).map
    (·.foldl mergeFacts .empty)

/-- The evidence of a clause is valid. -/
def valid (clause : Clause) : Bool := (page.evidence L clause.excerpt).isOk

/-- What is cut off from the lines changes nothing: what is heard is refused already, or what is cut
is not refused and is covered in every field. -/
def CutCovered : Prop :=
  let heard := heard L (lines page.text)
  let cut := cut L (lines page.text)
  let alone := (lines page.text).flatMap (quotedClauses L)
  (∃ clause ∈ heard, page.valid L clause = false) ∨
    (∀ clause ∈ cut, page.valid L clause = true) ∧
    (∀ key, Covered 10 (heard.flatMap (page.policyStatementsOf L key))
      (cut.flatMap (page.policyStatementsOf L key))
      (alone.flatMap (page.policyStatementsOf L key))) ∧
    ∀ kind, Covered 10 (heard.flatMap (page.restrictionsOf L kind))
      (cut.flatMap (page.restrictionsOf L kind)) (alone.flatMap (page.restrictionsOf L kind))

end Page

/-- What is found is what the clauses state, unless one of them has no valid evidence. -/
theorem found_eq (hkind : page.kind ≠ .companyPolicy) :
    page.found L = if (quotedClauses L page.text).all (page.valid L) then
      .ok (page.clauseFacts L (quotedClauses L page.text)) else .error .validationError := by
  have hevidence : ∀ clause ∈ pageClauses L page.text,
      page.evidence L (L.strip clause.original) =
        if page.valid L (clause.quoted L) then
          .ok ((page.evidence L (L.strip clause.original)).toOption.getD ⟨[], [], [], 0⟩)
        else .error .validationError := by
    intro clause _
    rw [Page.valid, PageClause.quoted]
    cases h : page.evidence L (L.strip clause.original) with
    | ok e => rfl
    | error e => rw [makeEvidence_error h]; rfl
  rw [Page.found, Page.findings, if_neg hkind]
  simp only [mapM_eq_ite hevidence]
  rw [quotedClauses_eq, List.all_map, ← quotedClauses_eq, ← extract_eq_clauseFacts hkind]
  simp only [Function.comp_def]
  split_ifs <;> rfl

/-- The lines alone find what all their clauses state. -/
theorem foundByLine_eq (hkind : page.kind ≠ .companyPolicy) :
    page.foundByLine L =
      if ((lines page.text).flatMap (quotedClauses L)).all (page.valid L) then
        .ok (page.clauseFacts L ((lines page.text).flatMap (quotedClauses L)))
      else .error .validationError := by
  have hline : ∀ line ∈ lines page.text, (page.withText line).found L =
      if (quotedClauses L line).all (page.valid L) then
        .ok (page.clauseFacts L (quotedClauses L line)) else .error .validationError :=
    fun line _ => @found_eq L (page.withText line) hkind
  rw [Page.foundByLine, mapM_eq_ite hline, List.flatMap, List.all_flatten, List.all_map,
    ← foldl_clauseFacts, List.map_map]
  simp only [Function.comp_def]
  split_ifs <;> rfl

/-- No clause states a conflict. -/
theorem statement_ne_conflicting {key : PolicyKind} {clause : Clause}
    {s : PolicyValue × Evidence} (h : s ∈ page.policyStatementsOf L key clause) :
    s.1 ≠ .conflicting := by
  have hvalue : ∀ key line, policyValue L key line ≠ .conflicting := fun key line => by
    unfold policyValue
    extract_lets T topic
    split_ifs <;> simp
  simp only [Page.policyStatementsOf, List.mem_map, List.mem_filter, List.mem_flatMap] at h
  obtain ⟨s, ⟨⟨key', -, hs⟩, -⟩, rfl⟩ := h
  unfold policyStatements at hs
  extract_lets evidence found value at hs
  have hne : value ≠ .conflicting := by
    simp only [value, found]
    split_ifs
    · simp
    · exact hvalue key' clause.line
  split_ifs at hs <;> simp only [List.mem_cons, List.not_mem_nil, or_false] at hs
  · rcases hs with rfl | rfl <;> exact hne
  · rw [hs]
    exact hne
  · rw [hs]
    exact hne

theorem restriction_ne_conflicting {kind : RestrictionKind} {clause : Clause}
    {s : RestrictionValue × Evidence} (h : s ∈ page.restrictionsOf L kind clause) :
    s.1 ≠ .conflicting := by
  unfold Page.restrictionsOf at h
  extract_lets rules at h
  split at h
  · rw [List.mem_singleton.mp h]
    dsimp only
    split_ifs <;> simp
  · cases h

/-- **Policy evidence is found line by line** exactly where what is cut off from the lines is
covered; and what is found are the policies and restrictions of `extract`. -/
theorem line_evidence (L : Libraries) (page : Page) (hkind : page.kind ≠ .companyPolicy) :
    (page.found L = page.foundByLine L ↔ page.CutCovered L) ∧
      ∀ facts spans, page.extract L = .ok (facts, spans) → ∃ found, page.found L = .ok found ∧
        found.policies = facts.policies ∧ found.restrictions = facts.restrictions := by
  constructor
  · have hls : ∀ line ∈ lines page.text, '\n' ∉ line := fun line => newline_not_mem_of_lines
    have hsub := heard_sublist (L := L) hls
    have hperm := perm_heard_cut (L := L) hls
    rw [found_eq hkind, foundByLine_eq hkind, quotedClauses_lines, Page.CutCovered]
    generalize heard L (lines page.text) = heard at hsub hperm ⊢
    generalize cut L (lines page.text) = cut at hperm ⊢
    generalize (lines page.text).flatMap (quotedClauses L) = alone at hsub hperm ⊢
    have hall : alone.all (page.valid L) = (heard.all (page.valid L) && cut.all (page.valid L)) := by
      rw [← List.all_append]
      exact hperm.all_eq
    rw [hall]
    -- the facts are the same if each field is
    have hfacts : page.clauseFacts L heard = page.clauseFacts L alone ↔
        (∀ key, Covered 10 (heard.flatMap (page.policyStatementsOf L key))
          (cut.flatMap (page.policyStatementsOf L key))
          (alone.flatMap (page.policyStatementsOf L key))) ∧
        ∀ kind, Covered 10 (heard.flatMap (page.restrictionsOf L kind))
          (cut.flatMap (page.restrictionsOf L kind))
          (alone.flatMap (page.restrictionsOf L kind)) := by
      simp only [Page.clauseFacts, Facts.mk.injEq, true_and, funext_iff, foundPolicy_inj,
        foundRestriction_inj]
      refine and_congr (forall_congr' fun key => ?_) (forall_congr' fun kind => ?_)
      · refine tally_eq_iff (by decide) (hsub.flatMap _) ?_ fun s hs => ?_
        · rw [← List.flatMap_append]
          exact hperm.flatMap_right _
        · obtain ⟨clause, -, hs⟩ := List.mem_flatMap.mp hs
          exact statement_ne_conflicting hs
      · refine tally_eq_iff (by decide) (hsub.flatMap _) ?_ fun s hs => ?_
        · rw [← List.flatMap_append]
          exact hperm.flatMap_right _
        · obtain ⟨clause, -, hs⟩ := List.mem_flatMap.mp hs
          exact restriction_ne_conflicting hs
    have hrefused : heard.all (page.valid L) = false ↔
        ∃ clause ∈ heard, page.valid L clause = false := by simp
    have hkept : cut.all (page.valid L) = true ↔ ∀ clause ∈ cut, page.valid L clause = true := by
      simp
    rw [← hrefused, ← hkept, ← hfacts]
    cases heard.all (page.valid L) <;> cases cut.all (page.valid L) <;> simp
  · intro facts spans h
    rw [Page.extract, if_neg hkind] at h
    obtain ⟨⟨found, quoted⟩, hfindings, h⟩ := Raising.bind_eq_ok.mp h
    obtain ⟨textPay, -, h⟩ := Raising.bind_eq_ok.mp h
    obtain ⟨structured, -, h⟩ := Raising.bind_eq_ok.mp h
    obtain ⟨rfl, -⟩ := Prod.mk.inj (Except.ok.inj h)
    refine ⟨found, map_eq_ok.mpr ⟨_, hfindings, rfl⟩, ?_⟩
    rw [Page.findings, if_neg hkind] at hfindings
    obtain ⟨-, -, hfindings⟩ := Raising.bind_eq_ok.mp hfindings
    obtain ⟨rfl, -⟩ := Prod.mk.inj (Except.ok.inj hfindings)
    have hposting : ∀ pays, (page.document L pays).kind ≠ .companyPolicy := fun _ => hkind
    rw [extract, extract, if_neg (hposting _), if_neg (hposting _)]
    exact ⟨rfl, rfl⟩

/-- A page whose first line has no end, with other lines after it. -/
def denyingPage (after : String) : Page :=
  { austinPage "https://acme.example/jobs/1" "" posting_url_le with
    text := "We do not offer visa sponsorship".toList ++ after.toList }

/-- The denial on the last line, after a line that is cut off and states nothing. -/
def deniedLast : Page :=
  { denyingPage "" with text := "We hire in Austin\nWe do not offer visa sponsorship".toList }

theorem denial_heard_last : (cut .ascii (lines deniedLast.text)).length = 1 ∧
    deniedLast.CutCovered .ascii ∧
    deniedLast.found .ascii = deniedLast.foundByLine .ascii ∧
    ((deniedLast.found .ascii).map fun facts => (facts.policies .sponsorship).map (·.value)) =
      .ok (some .denied) := by
  have hcovered : deniedLast.CutCovered .ascii := by
    have hvalid : (cut .ascii (lines deniedLast.text)).all (deniedLast.valid .ascii) = true := by
      decide +kernel
    refine .inr ⟨List.all_eq_true.mp hvalid, fun key => .inl ?_, fun kind => .inl ?_⟩
    · cases key <;> decide +kernel
    · cases kind <;> decide +kernel
  exact ⟨by decide +kernel, hcovered, (line_evidence .ascii deniedLast (by decide)).1.mpr hcovered,
    by decide +kernel⟩

/-- A line after the denial makes it disappear. -/
theorem denial_cut :
    (((denyingPage "").found .ascii).map fun facts =>
        (facts.policies .sponsorship).map (·.value)) = .ok (some .denied) ∧
      (((denyingPage "\nApply now.").found .ascii).map fun facts =>
        (facts.policies .sponsorship).map (·.value)) = .ok none ∧
      (denyingPage "\nApply now.").found .ascii ≠ (denyingPage "\nApply now.").foundByLine .ascii := by
  have hfound : (((denyingPage "\nApply now.").found .ascii).map fun facts =>
      (facts.policies .sponsorship).map (·.value)) = .ok none := by decide +kernel
  have hlines : (((denyingPage "\nApply now.").foundByLine .ascii).map fun facts =>
      (facts.policies .sponsorship).map (·.value)) = .ok (some .denied) := by decide +kernel
  refine ⟨by decide +kernel, hfound, fun heq => ?_⟩
  rw [heq, hlines] at hfound
  cases hfound

end JobPing
