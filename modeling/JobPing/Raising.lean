import Mathlib.Data.List.Forall2

/-!
# Computations that raise

A computation in `Except` returns when each of its parts does. Mapped over a list, it returns when
it does on every item, and raises the exception of the first item it does not.
-/

namespace Raising

universe u v

variable {ε : Type u} {α : Type*} {β γ : Type v} {f : α → Except ε β} {l : List α}

theorem bind_eq_ok {x : Except ε β} {f : β → Except ε γ} {b : γ} :
    x >>= f = .ok b ↔ ∃ a, x = .ok a ∧ f a = .ok b := by
  cases x <;> simp [bind, Except.bind]

theorem bind_eq_error {x : Except ε β} {f : β → Except ε γ} {e : ε} :
    x >>= f = .error e ↔ x = .error e ∨ ∃ a, x = .ok a ∧ f a = .error e := by
  cases x <;> simp [bind, Except.bind]

theorem map_eq_ok {x : Except ε β} {f : β → γ} {b : γ} :
    x.map f = .ok b ↔ ∃ a, x = .ok a ∧ f a = b := by
  cases x <;> simp [Except.map]

theorem isOk_iff {x : Except ε β} : x.isOk = true ↔ ∃ b, x = .ok b := by
  cases x <;> simp [Except.isOk, Except.toBool]

theorem bind_returns {x : Except ε β} {f : β → Except ε γ} :
    (∃ b, x >>= f = .ok b) ↔ ∃ a, x = .ok a ∧ ∃ b, f a = .ok b := by
  cases x <;> simp [bind, Except.bind]

theorem map_returns {x : Except ε β} {f : β → γ} : (∃ b, x.map f = .ok b) ↔ ∃ a, x = .ok a := by
  cases x <;> simp [Except.map]

/-- The results of a list, one for each item. -/
theorem mapM_eq_ok {l' : List β} :
    l.mapM f = .ok l' ↔ List.Forall₂ (fun a b => f a = .ok b) l l' := by
  induction l generalizing l' with
  | nil => simp [pure, Except.pure, eq_comm]
  | cons a l ih =>
    rw [List.mapM_cons, bind_eq_ok]
    constructor
    · rintro ⟨b, hb, h⟩
      obtain ⟨bs, hbs, h⟩ := bind_eq_ok.mp h
      obtain rfl := Except.ok.inj h
      exact .cons hb (ih.mp hbs)
    · rintro (_ | ⟨hb, hbs⟩)
      exact ⟨_, hb, bind_eq_ok.mpr ⟨_, ih.mpr hbs, rfl⟩⟩

/-- What a list returns comes from its items. -/
theorem exists_of_mapM {l' : List β} (h : l.mapM f = .ok l') {b : β} (hb : b ∈ l') :
    ∃ a ∈ l, f a = .ok b := by
  have hall := mapM_eq_ok.mp h
  clear h
  induction hall with
  | nil => cases hb
  | cons ha hall ih =>
    rcases List.mem_cons.mp hb with rfl | hb
    · exact ⟨_, List.mem_cons_self, ha⟩
    · obtain ⟨a, ha, hfa⟩ := ih hb
      exact ⟨a, List.mem_cons_of_mem _ ha, hfa⟩

/-- What an item of a list returns is returned. -/
theorem mem_of_mapM {l' : List β} (h : l.mapM f = .ok l') {a : α} (ha : a ∈ l) :
    ∃ b ∈ l', f a = .ok b := by
  have hall := mapM_eq_ok.mp h
  clear h
  induction hall with
  | nil => cases ha
  | cons hfirst hall ih =>
    rcases List.mem_cons.mp ha with rfl | ha
    · exact ⟨_, List.mem_cons_self, hfirst⟩
    · obtain ⟨b, hb, hfa⟩ := ih ha
      exact ⟨b, List.mem_cons_of_mem _ hb, hfa⟩

/-- A list returns exactly when each of its items does. -/
theorem mapM_returns : (∃ l', l.mapM f = .ok l') ↔ ∀ a ∈ l, ∃ b, f a = .ok b := by
  constructor
  · rintro ⟨l', h⟩ a ha
    have hall := mapM_eq_ok.mp h
    clear h
    induction hall with
    | nil => cases ha
    | cons hab hall ih =>
      rcases List.mem_cons.mp ha with rfl | ha
      · exact ⟨_, hab⟩
      · exact ih ha
  · intro h
    induction l with
    | nil => exact ⟨[], rfl⟩
    | cons a l ih =>
      obtain ⟨b, hb⟩ := h a List.mem_cons_self
      obtain ⟨bs, hbs⟩ := ih fun a ha => h a (List.mem_cons_of_mem _ ha)
      exact ⟨b :: bs, mapM_eq_ok.mpr (.cons hb (mapM_eq_ok.mp hbs))⟩

/-- A loop over a list returns when each of its rounds does, whatever state it starts with. -/
theorem foldlM_returns {σ : Type v} {f : σ → α → Except ε σ} {p : α → Prop}
    (hf : ∀ s a, (∃ r, f s a = .ok r) ↔ p a) (l : List α) (s : σ) :
    (∃ r, l.foldlM f s = .ok r) ↔ ∀ a ∈ l, p a := by
  induction l generalizing s with
  | nil => exact ⟨fun _ a ha => absurd ha List.not_mem_nil, fun _ => ⟨s, rfl⟩⟩
  | cons a l ih =>
    rw [List.foldlM_cons, List.forall_mem_cons]
    constructor
    · rintro ⟨r, hr⟩
      obtain ⟨next, hnext, hr⟩ := bind_eq_ok.mp hr
      exact ⟨(hf s a).mp ⟨next, hnext⟩, (ih next).mp ⟨r, hr⟩⟩
    · rintro ⟨ha, hl⟩
      obtain ⟨next, hnext⟩ := (hf s a).mpr ha
      obtain ⟨r, hr⟩ := (ih next).mpr hl
      exact ⟨r, bind_eq_ok.mpr ⟨next, hnext, hr⟩⟩

/-- Where all exceptions are one, a list returns or raises it. -/
theorem mapM_eq_ite {p : α → Bool} {g : α → β} {e : ε}
    (hf : ∀ a ∈ l, f a = if p a then .ok (g a) else .error e) :
    l.mapM f = if l.all p then .ok (l.map g) else .error e := by
  induction l with
  | nil => rfl
  | cons a l ih =>
    rw [List.mapM_cons, hf a List.mem_cons_self, ih fun a ha => hf a (List.mem_cons_of_mem _ ha),
      List.all_cons]
    cases p a <;> cases l.all p <;> rfl

/-- A search for an item finds none exactly when it returns on every item that it is not one. -/
theorem anyM_eq_false {f : α → Except ε Bool} :
    l.anyM f = .ok false ↔ ∀ a ∈ l, f a = .ok false := by
  induction l with
  | nil => exact ⟨fun _ a ha => absurd ha List.not_mem_nil, fun _ => rfl⟩
  | cons a l ih =>
    rw [List.anyM_cons, bind_eq_ok, List.forall_mem_cons, ← ih]
    constructor
    · rintro ⟨found, hfound, hrest⟩
      cases found with
      | true => cases hrest
      | false => exact ⟨hfound, hrest⟩
    · rintro ⟨ha, hl⟩
      exact ⟨false, ha, hl⟩

end Raising
