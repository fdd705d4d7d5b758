import Mathlib.Data.List.Induction

/-!
# Interleavings

A system of agents is a partial function on states: a step is an action that is enabled in the
state. A run is a sequence of such steps, in any order the agents take them. What every step of a
run keeps holds at its end (`run_invariant`), and so does what relates it to the run of another
system (`run_simulation`).
-/

namespace Interleaving

variable {α σ : Type*} (step : α → σ → Option σ)

/-- The state after a sequence of actions, if each of them is enabled in its turn. -/
def run (s : σ) (actions : List α) : Option σ := actions.foldlM (fun s a => step a s) s

variable {step} {s t : σ}

@[simp] theorem run_nil : run step s [] = some s := rfl

theorem run_append (before after : List α) :
    run step s (before ++ after) = (run step s before).bind fun c => run step c after := by
  simp only [run, List.foldlM_append]
  rfl

theorem run_concat (actions : List α) (a : α) :
    run step s (actions ++ [a]) = (run step s actions).bind (step a) := by
  rw [run_append]
  simp [run]

/-- **The invariant rule**: what holds at the start and is kept by each step of a run holds at its
end. -/
theorem run_invariant {I : σ → Prop} {actions : List α} (hstart : I s)
    (hstep : ∀ before a after c c', actions = before ++ a :: after →
      run step s before = some c → step a c = some c' → I c → I c')
    (hrun : run step s actions = some t) : I t := by
  induction actions using List.reverseRecOn generalizing t with
  | nil =>
    cases hrun
    exact hstart
  | append_singleton actions a ih =>
    rw [run_concat, Option.bind_eq_some_iff] at hrun
    obtain ⟨c, hc, ha⟩ := hrun
    refine hstep actions a [] c t rfl hc ha (ih (fun before b after d d' hb => ?_) hc)
    exact hstep before b (after ++ [a]) d d' (by rw [hb]; simp)

/-- **The simulation rule**: a relation that holds at the start and is kept by each step, with a
step of the other system for the same action, holds at the end of a run and of one of the other
system. -/
theorem run_simulation {τ : Type*} {step' : α → τ → Option τ} {R : σ → τ → Prop} {t' : τ}
    {actions : List α} (hstart : R s t')
    (hstep : ∀ a c c' d, step a c = some c' → R c d → ∃ d', step' a d = some d' ∧ R c' d')
    (hrun : run step s actions = some t) : ∃ u, run step' t' actions = some u ∧ R t u := by
  induction actions using List.reverseRecOn generalizing t with
  | nil =>
    cases hrun
    exact ⟨t', rfl, hstart⟩
  | append_singleton actions a ih =>
    rw [run_concat, Option.bind_eq_some_iff] at hrun
    obtain ⟨c, hc, ha⟩ := hrun
    obtain ⟨d, hd, hcd⟩ := ih hc
    obtain ⟨u, hu, htu⟩ := hstep a c t d ha hcd
    refine ⟨u, ?_, htu⟩
    rw [run_concat, hd]
    exact hu

/-- Every state a run passes through is the end of a shorter run. -/
theorem run_prefix {before after : List α} (hrun : run step s (before ++ after) = some t) :
    ∃ c, run step s before = some c ∧ run step c after = some t := by
  rwa [run_append, Option.bind_eq_some_iff] at hrun

/-- What holds of every action of a run and those before it, position by position. -/
theorem forall_split_iff {P : List α → α → Prop} {actions : List α} :
    (∀ before a after, actions = before ++ a :: after → P before a) ↔
      ∀ i (h : i < actions.length), P (actions.take i) actions[i] := by
  constructor
  · intro hall i hi
    refine hall _ _ (actions.drop (i + 1)) ?_
    rw [← List.drop_eq_getElem_cons hi, List.take_append_drop]
  · rintro hall before a after rfl
    have hi : before.length < (before ++ a :: after).length := by simp
    simpa using hall before.length hi

end Interleaving
