import Mathlib.Data.List.Basic
import Mathlib.Data.List.Infix

/-!
# Regular expressions with backtracking

Patterns as Python's `re` runs them: alternatives in order, greedy repetition, lookarounds, groups.
A cursor is a position in a text, with the text on its left in reverse. `run` passes the cursors at
which a pattern may end to a continuation, the preferred one first, and backtracks where the
continuation fails.

* A match moves the cursor to the right in the same text (`run_spec`).
* The matches of `finditer` are pieces of the text, in order (`finditer_spec`).

A pattern whose matches are iterated over matches no empty text: an empty match is passed over.
-/

universe u

/-- A pattern over characters `α` with groups named by `γ`. -/
inductive Regex (α : Type u) (γ : Type) : Type u
  /-- One character of a class. -/
  | set (p : α → Bool)
  | empty
  | seq (a b : Regex α γ)
  | alt (a b : Regex α γ)
  /-- As many as possible, at least `min` and at most `max`. -/
  | many (min : ℕ) (max : Option ℕ) (r : Regex α γ)
  /-- `(?=r)`, or `(?!r)` where it is not to match. -/
  | ahead (expected : Bool) (r : Regex α γ)
  /-- `(?<!…)` of a fixed text, given in reverse as classes. -/
  | notBehind (classes : List (α → Bool))
  /-- `(?<=…)` of one character. -/
  | behind (p : α → Bool)
  /-- `\b`. -/
  | boundary (word : α → Bool)
  /-- `$`: the end of the text, or the newline that ends it. -/
  | finish (newline : α → Bool)
  | group (name : γ) (r : Regex α γ)

namespace Regex

variable {α : Type u} {γ : Type} {β : Type*}

/-- A position in a text, and the groups matched before it. -/
structure Cursor (α : Type u) (γ : Type) where
  left : List α
  right : List α
  groups : List (γ × List α)

namespace Cursor

/-- The start of a text. -/
def start (text : List α) : Cursor α γ := ⟨[], text, []⟩

/-- The text around the cursor. -/
def text (c : Cursor α γ) : List α := c.left.reverse ++ c.right

/-- The next character is in the class. -/
def next (p : α → Bool) (c : Cursor α γ) : Bool := c.right.head?.any p

/-- The cursor after the next character. -/
def step (c : Cursor α γ) : Cursor α γ :=
  match c.right with
  | [] => c
  | a :: rest => ⟨a :: c.left, rest, c.groups⟩

/-- The text from one cursor to a later one. -/
def since (c c' : Cursor α γ) : List α := (c'.left.take (c'.left.length - c.left.length)).reverse

/-- The second cursor is in the same text, not before the first. -/
def Reaches (c c' : Cursor α γ) : Prop :=
  ∃ passed, c'.left = passed.reverse ++ c.left ∧ c.right = passed ++ c'.right

variable {c c' c'' : Cursor α γ}

theorem Reaches.refl (c : Cursor α γ) : c.Reaches c := ⟨[], rfl, rfl⟩

theorem Reaches.trans (h : c.Reaches c') (h' : c'.Reaches c'') : c.Reaches c'' := by
  obtain ⟨p, hleft, hright⟩ := h
  obtain ⟨q, hleft', hright'⟩ := h'
  refine ⟨p ++ q, ?_, ?_⟩
  · rw [hleft', hleft, List.reverse_append, List.append_assoc]
  · rw [hright, hright', List.append_assoc]

theorem reaches_step (c : Cursor α γ) : c.Reaches c.step := by
  unfold step
  split
  · exact .refl c
  · next a rest h => exact ⟨[a], by simp, by simp [h]⟩

theorem Reaches.text_eq (h : c.Reaches c') : c'.text = c.text := by
  obtain ⟨p, hleft, hright⟩ := h
  rw [text, text, hleft, hright, List.reverse_append, List.reverse_reverse, List.append_assoc]

/-- What lies between two cursors. -/
theorem Reaches.right_eq (h : c.Reaches c') : c.right = c.since c' ++ c'.right := by
  obtain ⟨p, hleft, hright⟩ := h
  have hlength : (p.reverse ++ c.left).length - c.left.length = p.reverse.length := by simp
  rw [since, hleft, hlength, List.take_left, List.reverse_reverse, hright]

theorem Reaches.left_eq (h : c.Reaches c') : c'.left = (c.since c').reverse ++ c.left := by
  obtain ⟨p, hleft, hright⟩ := h
  have hlength : (p.reverse ++ c.left).length - c.left.length = p.reverse.length := by simp
  rw [since, hleft, hlength, List.take_left, List.reverse_reverse]

end Cursor

/-! ## Matching -/

/-- Repetition of a step that consumes, at most `fuel` times. -/
def repeated (step : Cursor α γ → (Cursor α γ → Option β) → Option β) :
    ℕ → ℕ → Option ℕ → Cursor α γ → (Cursor α γ → Option β) → Option β
  | 0, min, _, c, k => if min = 0 then k c else none
  | fuel + 1, min, max, c, k =>
    (if max = some 0 then none
      else step c fun c' =>
        if c'.right.length < c.right.length then
          repeated step fuel (min - 1) (max.map (· - 1)) c' k
        else none).or (if min = 0 then k c else none)

/-- The classes hold of the characters on the left. -/
def behindText : List (α → Bool) → List α → Bool
  | [], _ => true
  | _ :: _, [] => false
  | p :: ps, a :: left => p a && behindText ps left

/-- **Run** a pattern from a cursor, with what is to follow it. -/
def run : Regex α γ → ∀ {β : Type (max u 0)}, Cursor α γ → (Cursor α γ → Option β) → Option β
  | .set p, _, c, k => if c.next p then k c.step else none
  | .empty, _, c, k => k c
  | .seq a b, _, c, k => a.run c fun c' => b.run c' k
  | .alt a b, _, c, k => (a.run c k).or (b.run c k)
  | .many min max r, _, c, k => repeated (fun c k => r.run c k) c.right.length min max c k
  | .ahead expected r, _, c, k => if (r.run c some).isSome = expected then k c else none
  | .notBehind classes, _, c, k => if behindText classes c.left then none else k c
  | .behind p, _, c, k => if c.left.head?.any p then k c else none
  | .boundary word, _, c, k =>
    if c.left.head?.any word ≠ c.right.head?.any word then k c else none
  | .finish newline, _, c, k =>
    if c.right = [] ∨ (c.right.length = 1 ∧ c.next newline) then k c else none
  | .group name r, _, c, k => r.run c fun c' => k { c' with groups := (name, c.since c') :: c'.groups }

/-- What a match found. -/
structure Match (α : Type u) (γ : Type) where
  start : ℕ
  stop : ℕ
  text : List α
  groups : List (γ × List α)

/-- `match[name]`. -/
def Match.group [DecidableEq γ] (m : Match α γ) (name : γ) : Option (List α) :=
  (m.groups.find? (·.1 = name)).map (·.2)

variable (r : Regex α γ)

/-- The end of the match that starts at the cursor. -/
def matchAt (c : Cursor α γ) : Option (Cursor α γ) := r.run { c with groups := [] } some

/-- The match between two cursors. -/
def Cursor.matchTo (c c' : Cursor α γ) : Match α γ :=
  ⟨c.left.length, c'.left.length, c.since c', c'.groups⟩

/-- The matches from the cursor on, one after another. -/
def matchesFrom : ℕ → Cursor α γ → List (Match α γ)
  | 0, _ => []
  | fuel + 1, c =>
    match r.matchAt c with
    | some c' =>
      if c'.right.length < c.right.length then c.matchTo c' :: matchesFrom fuel c'
      else if c.right = [] then [] else matchesFrom fuel c.step
    | none => if c.right = [] then [] else matchesFrom fuel c.step

/-- `re.finditer`. -/
def finditer (text : List α) : List (Match α γ) :=
  r.matchesFrom (text.length + 1) (Cursor.start text)

/-- Whether some match starts at the cursor or after it. -/
def foundFrom : ℕ → Cursor α γ → Bool
  | 0, c => (r.matchAt c).isSome
  | fuel + 1, c => (r.matchAt c).isSome || (c.right ≠ [] && foundFrom fuel c.step)

/-- `bool(re.search(r, text))`. -/
def search (text : List α) : Bool := r.foundFrom text.length (Cursor.start text)

/-- `bool(re.fullmatch(r, text))`. -/
def fullmatch (text : List α) : Bool :=
  (r.run (Cursor.start text) fun c => if c.right = [] then some c else none).isSome

/-- The pieces of the text between matches. -/
def pieces (text : List α) (start : ℕ) : List (Match α γ) → List (List α)
  | [] => [text.drop start]
  | m :: rest => (text.drop start).take (m.start - start) :: pieces text m.stop rest

/-- `re.split`. -/
def split (text : List α) : List (List α) := pieces text 0 (r.finditer text)

/-- `re.sub`. -/
def sub (replacement text : List α) : List α := replacement.intercalate (r.split text)

/-- The match of `re.search`. -/
def first (text : List α) : Option (Match α γ) := (r.finditer text).head?

/-! ## Matches are pieces of the text -/

variable {r} {c c' : Cursor α γ}

theorem repeated_spec {β : Type u} {step : Cursor α γ → (Cursor α γ → Option β) → Option β}
    (hstep : ∀ c k b, step c k = some b → ∃ c' : Cursor α γ, c.Reaches c' ∧ k c' = some b) {b : β}
    {fuel min : ℕ} {max : Option ℕ} {c : Cursor α γ} {k : Cursor α γ → Option β}
    (h : repeated step fuel min max c k = some b) : ∃ c', c.Reaches c' ∧ k c' = some b := by
  induction fuel generalizing min max c with
  | zero =>
    rw [repeated] at h
    split_ifs at h
    exact ⟨c, .refl c, h⟩
  | succ fuel ih =>
    rw [repeated, Option.or_eq_some_iff] at h
    rcases h with h | ⟨-, h⟩
    · split_ifs at h
      obtain ⟨c', hreach, hc'⟩ := hstep _ _ _ h
      split_ifs at hc'
      obtain ⟨c'', hreach', hc''⟩ := ih hc'
      exact ⟨c'', hreach.trans hreach', hc''⟩
    · split_ifs at h
      exact ⟨c, .refl c, h⟩

/-- **A match moves to the right** in the text. -/
theorem run_spec (r : Regex α γ) {β : Type u} {c : Cursor α γ} {k : Cursor α γ → Option β} {b : β}
    (h : r.run c k = some b) : ∃ c', c.Reaches c' ∧ k c' = some b := by
  induction r generalizing c b β with
  | set p =>
    rw [run] at h
    split_ifs at h
    exact ⟨c.step, c.reaches_step, h⟩
  | empty => exact ⟨c, .refl c, h⟩
  | seq a b' iha ihb =>
    rw [run] at h
    obtain ⟨c', hreach, hc'⟩ := iha h
    obtain ⟨c'', hreach', hc''⟩ := ihb hc'
    exact ⟨c'', hreach.trans hreach', hc''⟩
  | alt a b' iha ihb =>
    rw [run, Option.or_eq_some_iff] at h
    rcases h with h | ⟨-, h⟩
    · exact iha h
    · exact ihb h
  | many min max r ih =>
    rw [run] at h
    exact repeated_spec (fun c k b hb => ih hb) h
  | ahead expected r _ =>
    rw [run] at h
    split_ifs at h
    exact ⟨c, .refl c, h⟩
  | notBehind classes =>
    rw [run] at h
    split_ifs at h
    exact ⟨c, .refl c, h⟩
  | behind p =>
    rw [run] at h
    split_ifs at h
    exact ⟨c, .refl c, h⟩
  | boundary word =>
    rw [run] at h
    split_ifs at h
    exact ⟨c, .refl c, h⟩
  | finish newline =>
    rw [run] at h
    split_ifs at h
    exact ⟨c, .refl c, h⟩
  | group name r ih =>
    rw [run] at h
    obtain ⟨c', hreach, hc'⟩ := ih h
    exact ⟨{ c' with groups := (name, c.since c') :: c'.groups }, hreach, hc'⟩

theorem matchAt_reaches (h : r.matchAt c = some c') : c.Reaches c' := by
  obtain ⟨c'', hreach, heq⟩ := run_spec r h
  obtain rfl := Option.some.inj heq
  exact hreach

/-- A piece of a text at its place. -/
structure Match.In (m : Match α γ) (text : List α) : Prop where
  nonempty : m.start < m.stop
  bounded : m.stop ≤ text.length
  text_eq : m.text = (text.drop m.start).take (m.stop - m.start)

theorem matchTo_in (hreach : c.Reaches c') (hlt : c'.right.length < c.right.length) :
    (c.matchTo c').In c.text := by
  have hright := hreach.right_eq
  have hleft := congrArg List.length hreach.left_eq
  rw [List.length_append, List.length_reverse] at hleft
  have hlength := congrArg List.length hright
  rw [List.length_append] at hlength
  have hdrop : c.text.drop c.left.length = c.right := by
    rw [Cursor.text, ← List.length_reverse, List.drop_left]
  refine ⟨?_, ?_, ?_⟩
  · simp only [Cursor.matchTo]
    omega
  · simp only [Cursor.matchTo, Cursor.text, List.length_append, List.length_reverse]
    omega
  · simp only [Cursor.matchTo]
    have hcount : c'.left.length - c.left.length = (c.since c').length := by omega
    rw [hdrop, hcount, hright, List.take_left]

theorem matchesFrom_spec {fuel : ℕ} {m : Match α γ} (h : m ∈ r.matchesFrom fuel c) :
    m.In c.text := by
  induction fuel generalizing c with
  | zero => cases h
  | succ fuel ih =>
    have hstep : m ∈ (if c.right = [] then [] else r.matchesFrom fuel c.step) → m.In c.text := by
      intro hm
      split_ifs at hm
      · cases hm
      · exact c.reaches_step.text_eq ▸ ih hm
    rw [matchesFrom] at h
    split at h
    · next c' hmatch =>
      have hreach := matchAt_reaches hmatch
      by_cases hlt : c'.right.length < c.right.length
      · rw [if_pos hlt] at h
        rcases List.mem_cons.mp h with rfl | h
        · exact matchTo_in hreach hlt
        · exact hreach.text_eq ▸ ih h
      · rw [if_neg hlt] at h
        exact hstep h
    · exact hstep h

/-- **The matches of a text** are pieces of it. -/
theorem finditer_spec {text : List α} {m : Match α γ} (h : m ∈ r.finditer text) : m.In text :=
  matchesFrom_spec h

end Regex
