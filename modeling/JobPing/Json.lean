import JobPing.Text
import Mathlib.Data.Int.Notation

/-!
# Values of pages

What `json.loads` makes of a text, and what `HTMLParser` reports of one. Dictionaries have the keys
that the program asks for, which are texts.
-/

namespace JobPing

/-- A value of a payload or of a page. A float is the text it is shown as. -/
inductive Json
  | null
  | bool (value : Bool)
  | int (value : ℤ)
  | float (shown : Str)
  | str (value : Str)
  | list (items : List Json)
  | dict (items : List (Str × Json))

/-- The items of a dictionary. -/
abbrev Entries := List (Str × Json)

namespace Json

/-- The truth value. -/
def truthy : Json → Bool
  | .null => false
  | .bool value => value
  | .int value => value ≠ 0
  | .float shown => shown ≠ "0.0".toList && shown ≠ "-0.0".toList
  | .str value => value ≠ []
  | .list items => !items.isEmpty
  | .dict items => !items.isEmpty

/-- `a or b`. -/
def orElse (a b : Json) : Json := if a.truthy then a else b

/-- The items of a dictionary; no other value has any. -/
def entries : Json → Entries
  | .dict items => items
  | _ => []

/-- The items of a list; no other value has any. -/
def elements : Json → List Json
  | .list items => items
  | _ => []

def isDict : Json → Bool
  | .dict _ => true
  | _ => false

end Json

/-- `d.get(key)`: `None` without the key. -/
def Entries.get (d : Entries) (key : String) : Json := (d.lookup key.toList).getD .null

/-- What an HTML parser reports, one after another. A start has its attributes and its text. -/
inductive HtmlEvent
  | start (tag : Str) (attrs : List (Str × Option Str)) (text : Str)
  | stop (tag : Str)
  | data (text : Str)

end JobPing
