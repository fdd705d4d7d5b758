import Mathlib.Logic.Basic

/-!
# Sessions that begin by themselves

A session over a database opens a transaction with its first statement. A program that needs a
transaction joins the open one, or begins one that it commits or rolls back. On an idle session a
program that starts with a transaction is durable (`transaction_durable`). One that starts with a
statement only ever joins: what it writes is left to a commit that nobody makes
(`Begins.durable_iff`).
-/

namespace Sessions

universe u

variable {τ σ ε α β ρ : Type u}

/-- A computation on a state that keeps what it has done when it raises. -/
def Stateful (τ ε α : Type u) : Type u := τ → Except ε α × τ

namespace Stateful

/-- What follows a result. -/
def andThen (f : α → Stateful τ ε β) : Except ε α × τ → Except ε β × τ
  | (.ok a, s) => f a s
  | (.error e, s) => (.error e, s)

instance : Monad (Stateful τ ε) where
  pure a := fun s => (.ok a, s)
  bind m f := fun s => andThen f (m s)

def raise (e : ε) : Stateful τ ε α := fun s => (.error e, s)

/-- A check, which does not read the state. -/
def returned (x : Except ε α) : Stateful τ ε α := fun s => (x, s)

theorem bind_ok {m : Stateful τ ε α} {f : α → Stateful τ ε β} {s s' : τ} {a : α}
    (h : m s = (.ok a, s')) : (m >>= f) s = f a s' := congrArg (andThen f) h

theorem bind_error {m : Stateful τ ε α} {f : α → Stateful τ ε β} {s s' : τ} {e : ε}
    (h : m s = (.error e, s')) : (m >>= f) s = (.error e, s') := congrArg (andThen f) h

end Stateful

open Stateful

/-- What is committed, and the state of the open transaction. -/
structure Session (σ : Type u) where
  committed : σ
  working : Option σ

namespace Session

/-- A session without a transaction. -/
def idle (s : σ) : Session σ := ⟨s, none⟩

/-- A session with an open transaction. -/
def opened (committed working : σ) : Session σ := ⟨committed, some working⟩

/-- What the session sees. -/
def view (s : Session σ) : σ := s.working.getD s.committed

@[simp] theorem view_idle (s : σ) : (idle s).view = s := rfl

@[simp] theorem view_opened (committed working : σ) :
    (opened committed working).view = working := rfl

@[simp] theorem committed_opened (committed working : σ) :
    (opened committed working).committed = committed := rfl

end Session

open Session

/-- A computation of a session. -/
abbrev SessionM (σ ε α : Type u) : Type u := Stateful (Session σ) ε α

/-- Statements on the database; the first one opens a transaction. -/
def statement (f : Stateful σ ε α) : SessionM σ ε α := fun s =>
  ((f s.view).1, opened s.committed (f s.view).2)

/-- The end of a transaction: it is committed when the body returns, and rolled back when it raises.
-/
def finish : Except ε α × Session σ → Except ε α × Session σ
  | (.ok a, s) => (.ok a, idle s.view)
  | (.error e, s) => (.error e, idle s.committed)

/-- Join the open transaction, or begin one. -/
def transaction (body : SessionM σ ε α) : SessionM σ ε α := fun s =>
  if s.working.isSome then body s else finish (body (opened s.committed s.committed))

/-! ## Open sessions -/

/-- In an open transaction a program does what another does to the database, and commits nothing. -/
def Acts (m : SessionM σ ε α) (f : Stateful σ ε α) : Prop :=
  ∀ committed working, m (opened committed working) =
    ((f working).1, opened committed (f working).2)

namespace Acts

variable {m : SessionM σ ε α} {f : Stateful σ ε α}

theorem statement (f : Stateful σ ε α) : Acts (statement f) f := fun _ _ => rfl

/-- **A transaction** in an open one joins it. -/
theorem transaction (h : Acts m f) : Acts (transaction m) f := fun committed working =>
  (if_pos rfl).trans (h committed working)

end Acts

/-! ## Idle sessions -/

/-- What a call should do for its caller: what it did is committed if it returns, and nothing it did
is if it raises. -/
structure Durable (obs : σ → ρ) (s : σ) (result : Except ε α × Session σ) : Prop where
  returns : ∀ a, result.1 = .ok a → obs result.2.committed = obs result.2.view
  raises : ∀ e, result.1 = .error e → obs result.2.committed = obs s

/-- **A transaction on an idle session** is durable. -/
theorem transaction_durable {m : SessionM σ ε α} {f : Stateful σ ε α} (h : Acts m f) (obs : σ → ρ)
    (s : σ) : Durable obs s (transaction m (idle s)) := by
  have hbegin : transaction m (idle s) = finish (m (opened s s)) := if_neg Bool.false_ne_true
  rw [hbegin, h s s]
  cases (f s).1 with
  | ok a => exact ⟨fun _ _ => rfl, fun _ hraised => by cases hraised⟩
  | error e =>
    refine ⟨fun a hreturned => ?_, fun _ _ => rfl⟩
    cases hreturned

/-- What touches nothing is durable. -/
theorem durable_untouched (obs : σ → ρ) (s : σ) (x : Except ε α) : Durable obs s (x, idle s) :=
  ⟨fun _ _ => rfl, fun _ _ => rfl⟩

/-- On an idle session a program raises before its first statement, or goes on as in a transaction
that has just been opened. -/
def Begins (m : SessionM σ ε α) : Prop :=
  ∀ s, m (idle s) = m (opened s s) ∨
    ∃ e, m (idle s) = (.error e, idle s) ∧ m (opened s s) = (.error e, opened s s)

namespace Begins

variable {m : SessionM σ ε α} {k : α → SessionM σ ε β}

/-- A first statement opens the transaction. -/
theorem statement (f : Stateful σ ε α) : Begins (statement f) := fun _ => .inl rfl

/-- A check may come before the first statement. -/
theorem check (x : Except ε α) (hk : ∀ a, x = .ok a → Begins (k a)) :
    Begins (returned x >>= k) := by
  cases x with
  | ok a => exact hk a rfl
  | error e => exact fun _ => .inr ⟨e, rfl, rfl⟩

/-- **Sequences** begin with their first part. -/
theorem bind (h : Begins m) (k : α → SessionM σ ε β) : Begins (m >>= k) := by
  intro s
  rcases h s with heq | ⟨e, hidle, hopened⟩
  · exact .inl (congrArg (andThen k) heq)
  · exact .inr ⟨e, bind_error hidle, bind_error hopened⟩

/-- **What is left open**: a program that only joins the transaction of its first statement is
durable exactly if it has nothing to commit. -/
theorem durable_iff {f : Stateful σ ε α} (h : Begins m) (hacts : Acts m f) (obs : σ → ρ) (s : σ) :
    Durable obs s (m (idle s)) ↔ ∀ a, (f s).1 = .ok a → obs (f s).2 = obs s := by
  rcases h s with heq | ⟨e, hidle, hopened⟩
  · rw [heq, hacts s s]
    constructor
    · exact fun hdurable a ha => (hdurable.returns a ha).symm
    · exact fun hsame => ⟨fun a ha => (hsame a ha).symm, fun _ _ => rfl⟩
  · have hf : (f s).1 = .error e := congrArg Prod.fst ((hacts s s).symm.trans hopened)
    rw [hidle]
    refine iff_of_true (durable_untouched obs s _) fun a ha => ?_
    cases hf.symm.trans ha

end Begins

end Sessions
