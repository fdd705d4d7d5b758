import Mathlib.Data.List.Basic

/-!
# The three-valued logic of SQL

A truth value is `none` when it is unknown, which is what a comparison with NULL gives. `AND` is false
when an operand is, `OR` true when an operand is, whatever the unknown ones are; a filter, a `WHEN` and
an `EXISTS` want a condition that is true. `coalesce_or` says when a disjunction with a default is true,
and `or_of_bools` that known operands make it the ordinary one.
-/

namespace Sql

variable {α ρ : Type*}

/-- A truth value. -/
abbrev Truth := Option Bool

def and_ (operands : List Truth) : Truth :=
  if some false ∈ operands then some false else if none ∈ operands then none else some true

def or_ (operands : List Truth) : Truth :=
  if some true ∈ operands then some true else if none ∈ operands then none else some false

/-- `~`. -/
def not_ (a : Truth) : Truth := a.map (!·)

/-- `==` of two columns. -/
def eq [DecidableEq α] (a b : Option α) : Truth := a.bind fun x => b.map fun y => decide (x = y)

/-- `!=`. -/
def ne [DecidableEq α] (a b : Option α) : Truth := not_ (eq a b)

/-- A comparison of a column. -/
def compare (a : Option α) (p : α → Bool) : Truth := a.map p

def in_ [DecidableEq α] (a : Option α) (values : List α) : Truth := a.map fun x => decide (x ∈ values)

def notIn [DecidableEq α] (a : Option α) (values : List α) : Truth := not_ (in_ a values)

/-- `is_(None)`. -/
def isNull (a : Option α) : Truth := some a.isNone

/-- `is_not(None)`. -/
def isNotNull (a : Option α) : Truth := some a.isSome

/-- `is_(True)`. -/
def isTrue (a : Truth) : Truth := some (a = some true)

/-- `coalesce`. -/
def coalesce (a : Option α) (default : α) : Option α := some (a.getD default)

/-- The rows a filter keeps. -/
def filter (rows : List ρ) (condition : ρ → Truth) : List ρ :=
  rows.filter fun row => condition row = some true

/-- `EXISTS` over rows. -/
def exists_ (rows : List ρ) : Truth := some !rows.isEmpty

/-- `CASE WHEN`. -/
def case_ (branches : List (Truth × α)) (otherwise : α) : α :=
  ((branches.find? (·.1 = some true)).map (·.2)).getD otherwise

variable {a : Truth} {operands : List Truth}

@[simp] theorem not_some (b : Bool) : not_ (some b) = some !b := rfl

@[simp] theorem eq_some [DecidableEq α] (x y : α) : eq (some x) (some y) = some (decide (x = y)) := rfl

@[simp] theorem eq_null_left [DecidableEq α] (b : Option α) : eq none b = none := rfl

/-- A comparison is true when the column has the value. -/
theorem eq_eq_true [DecidableEq α] {a : Option α} {x : α} : eq a (some x) = some true ↔ a = some x := by
  cases a <;> simp [eq]

theorem ne_eq_true [DecidableEq α] {a : Option α} {x : α} :
    ne a (some x) = some true ↔ ∃ y, a = some y ∧ y ≠ x := by
  cases a <;> simp [ne, eq, not_]

/-- A conjunction is true when all its operands are. -/
theorem and_eq_true : and_ operands = some true ↔ ∀ a ∈ operands, a = some true := by
  unfold and_
  split_ifs with hfalse hnone
  · constructor
    · nofun
    · exact fun h => h _ hfalse
  · constructor
    · nofun
    · exact fun h => nomatch h _ hnone
  · refine ⟨fun _ a ha => ?_, fun _ => rfl⟩
    rcases a with _ | _ | _
    · exact absurd ha hnone
    · exact absurd ha hfalse
    · rfl

/-- A disjunction is true when one of its operands is. -/
theorem or_eq_true : or_ operands = some true ↔ some true ∈ operands := by
  unfold or_
  split_ifs with htrue hnone
  · exact iff_of_true rfl htrue
  · exact iff_of_false nofun htrue
  · exact iff_of_false nofun htrue

/-- A disjunction that is false when it is unknown. -/
theorem coalesce_or : coalesce (or_ operands) false = some (decide (some true ∈ operands)) := by
  by_cases h : some true ∈ operands
  · rw [or_eq_true.mpr h, decide_eq_true h]
    rfl
  · have hne : or_ operands ≠ some true := fun htrue => h (or_eq_true.mp htrue)
    rw [decide_eq_false h, coalesce]
    rcases hor : or_ operands with _ | _ | _
    · rfl
    · rfl
    · exact absurd hor hne

/-- A conjunction that is false when it is unknown. -/
theorem coalesce_and :
    coalesce (and_ operands) false = some (operands.all (· = some true)) := by
  by_cases h : ∀ a ∈ operands, a = some true
  · have hall : operands.all (· = some true) = true :=
      List.all_eq_true.mpr fun a ha => decide_eq_true (h a ha)
    rw [and_eq_true.mpr h, hall]
    rfl
  · have hne : and_ operands ≠ some true := fun htrue => h (and_eq_true.mp htrue)
    have hall : operands.all (· = some true) = false := Bool.eq_false_iff.mpr fun hall =>
      h fun a ha => of_decide_eq_true (List.all_eq_true.mp hall a ha)
    rw [hall, coalesce]
    rcases hand : and_ operands with _ | _ | _
    · rfl
    · rfl
    · exact absurd hand hne

@[simp] theorem or_pair (a b : Bool) : or_ [some a, some b] = some (a || b) := by
  cases a <;> cases b <;> rfl

@[simp] theorem and_pair (a b : Bool) : and_ [some a, some b] = some (a && b) := by
  cases a <;> cases b <;> rfl

@[simp] theorem and_triple (a b c : Bool) : and_ [some a, some b, some c] = some (a && b && c) := by
  cases a <;> cases b <;> cases c <;> rfl

/-- A row of a filter meets its condition. -/
theorem exists_filter (rows : List ρ) (condition : ρ → Truth) :
    exists_ (filter rows condition) = some (rows.any fun row => condition row = some true) := by
  unfold exists_ filter
  congr 1
  rw [Bool.eq_iff_iff, List.any_eq_true]
  simp

end Sql
