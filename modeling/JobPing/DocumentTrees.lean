import Mathlib.Data.List.Basic
import Mathlib.Data.Option.Basic

/-!
# Document trees

A forest of elements and leaves, from its first tree to the last. A walk through it puts something
out before and after the children of an element and at each leaf, and knows the elements it is in,
the outermost first. What a walk puts out at the leaves is put out in the order of the leaves
(`filterMap_walk`).
-/

/-- Trees after one another, by the first one and the rest. -/
inductive Forest (ε τ : Type*)
  | nil
  | leaf (t : τ) (rest : Forest ε τ)
  | node (e : ε) (children rest : Forest ε τ)

namespace Forest

variable {ε τ γ δ : Type*}

/-- The output of a walk inside the elements of `path`. -/
def walk (before after : List ε → ε → List γ) (at_leaf : List ε → τ → List γ) (path : List ε) :
    Forest ε τ → List γ
  | nil => []
  | leaf t rest => at_leaf path t ++ walk before after at_leaf path rest
  | node e children rest =>
    before path e ++ walk before after at_leaf (path ++ [e]) children ++ after path e ++
      walk before after at_leaf path rest

/-- The leaves with the elements they are in. -/
def leaves (path : List ε) : Forest ε τ → List (List ε × τ) :=
  walk (fun _ _ => []) (fun _ _ => []) (fun path t => [(path, t)]) path

/-- A property of all elements, with the elements around them and their children. -/
def All (p : List ε → ε → Forest ε τ → Prop) (path : List ε) : Forest ε τ → Prop
  | nil => True
  | leaf _ rest => All p path rest
  | node e children rest => p path e children ∧ All p (path ++ [e]) children ∧ All p path rest

variable {before after : List ε → ε → List γ} {at_leaf : List ε → τ → List γ}

/-- **What comes from the leaves** of a walk, in their order. -/
theorem filterMap_walk {g : γ → Option δ} {h : List ε × τ → Option δ}
    (hbefore : ∀ path e, (before path e).filterMap g = [])
    (hafter : ∀ path e, (after path e).filterMap g = [])
    (hleaf : ∀ path t, (at_leaf path t).filterMap g = (h (path, t)).toList)
    (path : List ε) (f : Forest ε τ) :
    (f.walk before after at_leaf path).filterMap g = (f.leaves path).filterMap h := by
  induction f generalizing path with
  | nil => rfl
  | leaf t rest ih =>
    rw [walk, List.filterMap_append, hleaf, ih]
    change _ = ([(path, t)] ++ leaves path rest).filterMap h
    rw [List.filterMap_append, List.filterMap_cons, List.filterMap_nil]
    cases h (path, t) <;> rfl
  | node e children rest hchildren hrest =>
    rw [walk, List.filterMap_append, List.filterMap_append, List.filterMap_append, hbefore,
      hafter, hchildren, hrest]
    change _ = ([] ++ leaves (path ++ [e]) children ++ [] ++ leaves path rest).filterMap h
    simp only [List.nil_append, List.append_nil, List.filterMap_append]

end Forest
