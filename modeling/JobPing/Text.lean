import Mathlib.Data.List.Basic

/-!
# Python text

A Python `str` is the list of its code points. The Unicode tables behind `unicodedata` and the
methods of `str` are parameters: the program only relies on how it composes them.
-/

namespace JobPing

/-- A Python `str`. -/
abbrev Str := List Char

instance : LawfulBEq Str := inferInstanceAs (LawfulBEq (List Char))

/-- The truth value of an optional string: `None` and `""` are false. -/
def truthy : Option Str → Bool
  | some (_ :: _) => true
  | _ => false

theorem truthy_eq_true {s : Option Str} : truthy s = true ↔ ∃ t, s = some t ∧ t ≠ [] := by
  rcases s with _ | _ | ⟨c, t⟩ <;> simp [truthy]

/-- What the program reads from Python's Unicode tables. -/
structure Unicode where
  /-- `unicodedata.normalize("NFKC", ·)`. -/
  nfkc : Str → Str
  nfkc_nil : nfkc [] = []
  /-- `str.casefold`. -/
  casefold : Str → Str
  casefold_nil : casefold [] = []
  /-- `str.isspace` of one character. -/
  isSpace : Char → Bool

namespace Unicode

variable (U : Unicode)

/-- `str.strip()`. -/
def strip (s : Str) : Str :=
  ((s.dropWhile U.isSpace).reverse.dropWhile U.isSpace).reverse

/-- `str.split()`: the maximal runs of non-space characters. -/
def split (s : Str) : List Str := (s.splitOnP U.isSpace).filter (· ≠ [])

/-- `" ".join(s.split())`. -/
def squeeze (s : Str) : Str := [' '].intercalate (U.split s)

@[simp] theorem squeeze_nil : U.squeeze [] = [] := rfl

end Unicode

end JobPing
