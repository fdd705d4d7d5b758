import JobPing.QueryRoundTrip
import Mathlib.Data.List.TakeWhile

/-!
# Round trips of URLs

Parts that can be told apart where they are written one after another are read back by `urlsplit`
(`urlsplit_urlunsplit`).
-/

namespace JobPing

variable {P : Python} {parts : SplitResult} {s url : Str}

theorem partition_plain {separator : Char} (h : separator ∉ s) :
    partition separator s = (s, false, []) := by
  have hplain : ∀ c ∈ s, decide (c ≠ separator) = true := fun c hc => by
    rw [decide_eq_true_eq]
    rintro rfl
    exact h hc
  have hcontains : s.contains separator = false := by
    rw [Bool.eq_false_iff, Ne, List.contains_iff_mem]
    exact h
  rw [partition, List.takeWhile_eq_self_iff.mpr hplain, List.dropWhile_eq_nil_iff.mpr hplain,
    hcontains]
  rfl

/-- The characters that end a network location. -/
def netlocEnds : List Char := ['/', '?', '#']

namespace SplitResult

variable (parts)

/-- What is written after the network location. -/
def afterNetloc : Str :=
  parts.path ++ (if parts.query ≠ [] then '?' :: parts.query else []) ++
    (if parts.fragment ≠ [] then '#' :: parts.fragment else [])

/-- Whether two slashes are written before the network location. -/
def hasSlashes : Prop :=
  parts.netloc ≠ [] ∨ "//".toList <+: parts.path ∨
    (parts.scheme ≠ [] ∧ parts.scheme ∈ usesNetloc ∧
      (parts.path = [] ∨ parts.path.head? = some '/'))

instance : Decidable parts.hasSlashes := by
  unfold hasSlashes
  infer_instance

/-- What is written after the scheme. -/
def afterScheme : Str :=
  (if parts.hasSlashes then "//".toList ++ parts.netloc else []) ++ parts.afterNetloc

/-- **The parts can be told apart**, and the network location passes the checks. -/
structure Readable (P : Python) : Prop where
  scheme : parts.scheme ≠ [] → parts.scheme.head?.any Char.isAlpha = true ∧
    parts.scheme.all isSchemeChar = true ∧ P.lower parts.scheme = parts.scheme
  netloc : ∀ c ∈ parts.netloc, c ∉ netlocEnds
  rooted : parts.netloc ≠ [] → parts.path = [] ∨ parts.path.head? = some '/'
  path : '?' ∉ parts.path ∧ '#' ∉ parts.path
  query : '#' ∉ parts.query
  plain : ∀ c ∈ urlunsplit parts, isUnsafeUrlChar c = false
  start : ∀ c, (urlunsplit parts).head? = some c → isC0ControlOrSpace c = false
  relative : parts.scheme = [] →
    splitScheme P (urlunsplit parts) = ([], urlunsplit parts)
  brackets : parts.netloc.contains '[' = parts.netloc.contains ']'
  bracketed : parts.netloc.contains '[' = true → checkBracketedNetloc P parts.netloc = true
  checked : checkNetloc P parts.netloc = true

end SplitResult

open SplitResult

/-- Parts that are written with two slashes have a path after a slash, or none. -/
theorem rooted_of_slashes (hrooted : parts.netloc ≠ [] → parts.path = [] ∨
      parts.path.head? = some '/') (h : parts.hasSlashes) :
    parts.path = [] ∨ parts.path.head? = some '/' := by
  rcases h with h | ⟨rest, h⟩ | ⟨-, -, h⟩
  · exact hrooted h
  · rw [← h]
    exact .inr rfl
  · exact h

/-- **What is written.** -/
theorem urlunsplit_eq (hrooted : parts.netloc ≠ [] → parts.path = [] ∨
      parts.path.head? = some '/') :
    urlunsplit parts =
      (if parts.scheme ≠ [] then parts.scheme ++ [':'] else []) ++ parts.afterScheme := by
  unfold urlunsplit afterScheme afterNetloc hasSlashes
  by_cases hnetloc : parts.netloc = []
  · simp only [hnetloc, ne_eq, not_true_eq_false, if_false, false_or, List.append_nil,
      List.isPrefixOf_iff_prefix]
    by_cases hpath : "//".toList <+: parts.path
    · simp only [hpath, if_true, true_or, List.append_assoc]
    · simp only [hpath, if_false, false_or]
      split_ifs <;> simp only [List.append_assoc, List.nil_append]
  · simp only [hnetloc, ne_eq, not_false_eq_true, if_true, true_or]
    have hroot : ¬(parts.path ≠ [] ∧ parts.path.head? ≠ some '/') := fun h =>
      (hrooted hnetloc).elim h.1 h.2
    rw [if_neg hroot]
    simp only [List.append_assoc]

/-- After the path comes a separator, or nothing. -/
theorem afterNetloc_head (hpath : parts.path = [] ∨ parts.path.head? = some '/') :
    ∀ c, parts.afterNetloc.head? = some c → c ∈ netlocEnds := by
  intro c hc
  unfold afterNetloc at hc
  rcases hpath with hpath | hpath
  · rw [hpath] at hc
    split_ifs at hc <;> simp at hc <;> subst hc <;> decide
  · obtain ⟨rest, hrest⟩ := List.head?_eq_some_iff.mp hpath
    rw [hrest] at hc
    obtain rfl := Option.some.inj hc
    decide

theorem splitNetloc_slashes {netloc rest : Str} (hnetloc : ∀ c ∈ netloc, c ∉ netlocEnds)
    (hrest : ∀ c, rest.head? = some c → c ∈ netlocEnds) :
    splitNetloc ("//".toList ++ netloc ++ rest) = (netloc, rest) := by
  have hall : ∀ c ∈ netloc, decide (c ∉ netlocEnds) = true := fun c hc =>
    decide_eq_true (hnetloc c hc)
  have htake : rest.takeWhile (· ∉ netlocEnds) = [] := by
    cases rest with
    | nil => rfl
    | cons c rest => rw [List.takeWhile_cons_of_neg (by simpa using hrest c rfl)]
  have hdrop : rest.dropWhile (· ∉ netlocEnds) = rest := by
    cases rest with
    | nil => rfl
    | cons c rest => rw [List.dropWhile_cons_of_neg (by simpa using hrest c rfl)]
  change ((netloc ++ rest).takeWhile (· ∉ netlocEnds),
    (netloc ++ rest).dropWhile (· ∉ netlocEnds)) = _
  rw [List.takeWhile_append_of_pos hall, List.dropWhile_append_of_pos hall, htake, hdrop,
    List.append_nil]

theorem splitNetloc_plain (h : ¬"//".toList <+: url) : splitNetloc url = ([], url) := by
  unfold splitNetloc
  split
  · rename_i rest
    exact absurd ⟨rest, rfl⟩ h
  · rfl

/-- Two slashes after the network location are those of the path. -/
theorem slashes_of_after (h : "//".toList <+: parts.afterNetloc) : "//".toList <+: parts.path := by
  obtain ⟨rest, hrest⟩ := h
  unfold afterNetloc at hrest
  rw [List.append_assoc] at hrest
  change '/' :: '/' :: rest = _ at hrest
  have hend : ∀ rest : Str, '/' :: rest ≠
      (if parts.query ≠ [] then '?' :: parts.query else []) ++
        (if parts.fragment ≠ [] then '#' :: parts.fragment else []) := by
    intro rest heq
    split_ifs at heq <;> cases heq
  cases hpath : parts.path with
  | nil =>
    rw [hpath, List.nil_append] at hrest
    exact absurd hrest (hend _)
  | cons c path =>
    rw [hpath] at hrest
    rw [List.cons_append, List.cons.injEq] at hrest
    cases path with
    | nil => exact absurd hrest.2 (hend _)
    | cons d path =>
      rw [List.cons_append, List.cons.injEq] at hrest
      rw [← hrest.1, ← hrest.2.1]
      exact ⟨path, rfl⟩

theorem splitNetloc_after (h : parts.Readable P) :
    splitNetloc parts.afterScheme = (parts.netloc, parts.afterNetloc) := by
  unfold afterScheme
  by_cases hslashes : parts.hasSlashes
  · rw [if_pos hslashes]
    exact splitNetloc_slashes h.netloc
      (afterNetloc_head (rooted_of_slashes h.rooted hslashes))
  · rw [if_neg hslashes, List.nil_append]
    obtain ⟨hnetloc, hpath⟩ := not_or.mp hslashes
    rw [not_not.mp hnetloc]
    exact splitNetloc_plain fun hafter => (not_or.mp hpath).1 (slashes_of_after hafter)

theorem scheme_char_ne_colon {scheme : Str} (h : scheme.all isSchemeChar = true) :
    ':' ∉ scheme := fun hmem => by
  have hcolon := List.all_eq_true.mp h ':' hmem
  revert hcolon
  decide

theorem splitScheme_written (h : parts.Readable P) :
    splitScheme P (urlunsplit parts) = (parts.scheme, parts.afterScheme) := by
  have hwritten := urlunsplit_eq h.rooted
  by_cases hscheme : parts.scheme = []
  · rw [h.relative hscheme, hscheme, hwritten, if_neg (not_not.mpr hscheme), List.nil_append]
  · obtain ⟨hhead, hall, hlower⟩ := h.scheme hscheme
    have hpartition : partition ':' (urlunsplit parts) =
        (parts.scheme, true, parts.afterScheme) := by
      rw [hwritten, if_pos hscheme, List.append_assoc, List.singleton_append]
      exact partition_append (scheme_char_ne_colon hall) _
    unfold splitScheme
    rw [hpartition]
    simp only [hhead, hall, Bool.and_self, if_true, hlower]

/-- The fragment, the query and the path are told apart. -/
theorem partition_after (h : parts.Readable P) :
    (∃ found, partition '#' parts.afterNetloc =
      (parts.path ++ (if parts.query ≠ [] then '?' :: parts.query else []), found,
        parts.fragment)) ∧
      ∃ found, partition '?' (parts.path ++ if parts.query ≠ [] then '?' :: parts.query else []) =
        (parts.path, found, parts.query) := by
  have hplain : '#' ∉ parts.path ++ (if parts.query ≠ [] then '?' :: parts.query else []) := by
    rw [List.mem_append, not_or]
    refine ⟨h.path.2, ?_⟩
    split_ifs
    · rw [List.mem_cons, not_or]
      exact ⟨by decide, h.query⟩
    · exact List.not_mem_nil
  constructor
  · unfold afterNetloc
    by_cases hfragment : parts.fragment = []
    · rw [if_neg (not_not.mpr hfragment), List.append_nil, hfragment]
      exact ⟨false, partition_plain hplain⟩
    · rw [if_pos hfragment]
      exact ⟨true, partition_append hplain _⟩
  · by_cases hquery : parts.query = []
    · rw [if_neg (not_not.mpr hquery), List.append_nil, hquery]
      exact ⟨false, partition_plain h.path.1⟩
    · rw [if_pos hquery]
      exact ⟨true, partition_append h.path.1 _⟩

/-- **What `urlunsplit` has written is read back.** -/
theorem urlsplit_urlunsplit (h : parts.Readable P) :
    urlsplit P (urlunsplit parts) = some parts := by
  have hdrop : (urlunsplit parts).dropWhile isC0ControlOrSpace = urlunsplit parts := by
    cases hwritten : urlunsplit parts with
    | nil => rfl
    | cons c rest =>
      have hstart := h.start c (by rw [hwritten]; rfl)
      rw [List.dropWhile_cons_of_neg (by rw [hstart]; exact Bool.false_ne_true)]
  have hfilter : (urlunsplit parts).filter (fun c => !isUnsafeUrlChar c) = urlunsplit parts :=
    List.filter_eq_self.mpr fun c hc => by rw [h.plain c hc]; rfl
  obtain ⟨⟨found, hfragment⟩, found', hquery⟩ := partition_after h
  unfold urlsplit
  simp only [hdrop, hfilter, splitScheme_written h, splitNetloc_after h, hfragment, hquery,
    h.checked, if_true, h.brackets, bne_self_eq_false, Bool.false_eq_true, if_false]
  rw [if_neg]
  rw [← h.brackets, Bool.and_eq_true, not_and]
  intro hopen
  rw [h.bracketed hopen]
  decide

end JobPing
