import Mathlib.Algebra.Order.Ring.Nat
import Mathlib.Logic.Function.Basic

/-!
# Directories

The files of a directory that several processes share. A name is linked to a file, and who has
opened a file keeps it, whatever becomes of its name. What is written to a file may be lost in a
power failure until the file is synchronized; the names are kept by a journal.

A process that works under its own names leaves the files under other names as they are, and every
file that is synchronized (`Works`).
-/

/-- Names, and the files they are linked to: each to one that exists, and no two to the same. -/
structure Directory (Name Byte : Type*) where
  entries : Name → Option ℕ
  contents : ℕ → List Byte
  synced : ℕ → Bool
  next : ℕ
  linked : ∀ name file, entries name = some file → file < next
  once : ∀ a b file, entries a = some file → entries b = some file → a = b

namespace Directory

variable {Name Byte : Type*}

def empty : Directory Name Byte where
  entries _ := none
  contents _ := []
  synced _ := false
  next := 0
  linked _ _ h := absurd h (Option.some_ne_none _).symm
  once _ _ _ h := absurd h (Option.some_ne_none _).symm

variable (d : Directory Name Byte)

/-- Bytes are appended to an open file. -/
def append (file : ℕ) (bytes : List Byte) : Directory Name Byte :=
  { d with
    contents := Function.update d.contents file (d.contents file ++ bytes)
    synced := Function.update d.synced file false }

/-- `fsync`. -/
def sync (file : ℕ) : Directory Name Byte :=
  { d with synced := Function.update d.synced file true }

/-- A power failure: what was not synchronized may be anything. -/
def lose (garbage : ℕ → List Byte) : Directory Name Byte :=
  { d with contents := fun file => if d.synced file then d.contents file else garbage file }

variable {d} {e : Directory Name Byte} {name source target : Name} {file : ℕ} {bytes : List Byte}
  {own : Name → Prop}

/-! ## What a process leaves as it is -/

/-- What is done under one's own names: other names keep their files, these are not touched, and
neither is a file that was synchronized. -/
structure Works (own : Name → Prop) (d e : Directory Name Byte) : Prop where
  next_le : d.next ≤ e.next
  entries : ∀ name, ¬ own name → e.entries name = d.entries name
  others : ∀ name file, ¬ own name → d.entries name = some file →
    e.contents file = d.contents file ∧ e.synced file = d.synced file
  kept : ∀ file, file < d.next → d.synced file = true →
    e.contents file = d.contents file ∧ e.synced file = true

theorem Works.refl : Works own d d where
  next_le := le_rfl
  entries _ _ := rfl
  others _ _ _ _ := ⟨rfl, rfl⟩
  kept _ _ hsynced := ⟨rfl, hsynced⟩

/-- Only a file that is not synchronized is written to. -/
theorem works_append (hfile : d.entries name = some file) (hown : own name)
    (hopen : d.synced file = false) : Works own d (d.append file bytes) where
  next_le := le_rfl
  entries _ _ := rfl
  others other file' hother hfile' := by
    have hne : file' ≠ file := by
      rintro rfl
      exact hother (d.once other name _ hfile' hfile ▸ hown)
    exact ⟨Function.update_of_ne hne _ _, Function.update_of_ne hne _ _⟩
  kept file' _ hsynced := by
    have hne : file' ≠ file := by
      rintro rfl
      rw [hopen] at hsynced
      cases hsynced
    exact ⟨Function.update_of_ne hne _ _, (Function.update_of_ne hne _ _).trans hsynced⟩

theorem works_sync (hfile : d.entries name = some file) (hown : own name) :
    Works own d (d.sync file) where
  next_le := le_rfl
  entries _ _ := rfl
  others other file' hother hfile' := by
    have hne : file' ≠ file := by
      rintro rfl
      exact hother (d.once other name _ hfile' hfile ▸ hown)
    exact ⟨rfl, Function.update_of_ne hne _ _⟩
  kept file' _ hsynced := by
    refine ⟨rfl, ?_⟩
    change Function.update d.synced file true file' = true
    rw [Function.update_apply]
    split_ifs
    · rfl
    · exact hsynced

/-- A power failure leaves the files that were synchronized. -/
theorem contents_lose (garbage : ℕ → List Byte) (hsynced : d.synced file = true) :
    (d.lose garbage).contents file = d.contents file := if_pos hsynced

/-! ## Names -/

section Names

variable [DecidableEq Name]

variable (d) in
/-- `open` with `O_CREAT | O_EXCL`: a new file under a name that has none. -/
def create (name : Name) : Option (Directory Name Byte) :=
  if hnone : d.entries name = none then
    some {
      entries := Function.update d.entries name (some d.next)
      contents := Function.update d.contents d.next []
      synced := Function.update d.synced d.next false
      next := d.next + 1
      linked := fun a file h => by
        rw [Function.update_apply] at h
        split_ifs at h
        · cases h
          exact Nat.lt_succ_self _
        · exact (d.linked a file h).trans (Nat.lt_succ_self _)
      once := fun a b file ha hb => by
        rw [Function.update_apply] at ha hb
        split_ifs at ha hb with ha' hb' hb'
        · exact ha'.trans hb'.symm
        · cases ha
          exact absurd (d.linked b _ hb) (lt_irrefl _)
        · cases hb
          exact absurd (d.linked a _ ha) (lt_irrefl _)
        · exact d.once a b file ha hb }
  else none

variable (d) in
/-- `unlink`, of a name that may have no file. -/
def unlink (name : Name) : Directory Name Byte :=
  { d with
    entries := Function.update d.entries name none
    linked := fun a file h => by
      rw [Function.update_apply] at h
      split_ifs at h
      exact d.linked a file h
    once := fun a b file ha hb => by
      rw [Function.update_apply] at ha hb
      split_ifs at ha hb
      exact d.once a b file ha hb }

variable (d) in
/-- `rename`: the file of a name becomes that of another one. -/
def rename (source target : Name) : Option (Directory Name Byte) :=
  match hfile : d.entries source with
  | none => none
  | some file =>
    some { d with
      entries := Function.update (Function.update d.entries source none) target (some file)
      linked := fun a file' h => by
        rw [Function.update_apply] at h
        split_ifs at h
        · cases h
          exact d.linked source file hfile
        · rw [Function.update_apply] at h
          split_ifs at h
          exact d.linked a file' h
      once := fun a b file' ha hb => by
        rw [Function.update_apply, Function.update_apply] at ha hb
        split_ifs at ha hb with hat hbt hbs has hbt' hbs'
        · exact hat.trans hbt.symm
        · cases ha
          exact absurd (d.once b source _ hb hfile) hbs
        · cases hb
          exact absurd (d.once a source _ ha hfile) has
        · exact d.once a b file' ha hb }

theorem create_spec (h : d.create name = some e) : d.entries name = none ∧
    e.entries = Function.update d.entries name (some d.next) ∧ e.next = d.next + 1 ∧
      e.contents = Function.update d.contents d.next [] ∧
      e.synced = Function.update d.synced d.next false := by
  unfold create at h
  split_ifs at h with hnone
  cases h
  exact ⟨hnone, rfl, rfl, rfl, rfl⟩

theorem rename_spec (h : d.rename source target = some e) : ∃ file, d.entries source = some file ∧
    e.entries = Function.update (Function.update d.entries source none) target (some file) ∧
      e.next = d.next ∧ e.contents = d.contents ∧ e.synced = d.synced := by
  unfold rename at h
  split at h
  · cases h
  next file hfile =>
    cases h
    exact ⟨file, hfile, rfl, rfl, rfl, rfl⟩

theorem works_create (h : d.create name = some e) (hown : own name) : Works own d e := by
  obtain ⟨-, hentries, hnext, hcontents, hsynced⟩ := create_spec h
  have hold {file : ℕ} (hfile : file < d.next) :
      e.contents file = d.contents file ∧ e.synced file = d.synced file := by
    rw [hcontents, hsynced, Function.update_of_ne hfile.ne, Function.update_of_ne hfile.ne]
    exact ⟨rfl, rfl⟩
  exact {
    next_le := hnext ▸ Nat.le_succ _
    entries := fun other hother => by
      rw [hentries, Function.update_of_ne]
      rintro rfl
      exact hother hown
    others := fun other file _ hfile => hold (d.linked other file hfile)
    kept := fun file hfile hsynced => ⟨(hold hfile).1, (hold hfile).2.trans hsynced⟩ }

theorem works_unlink (hown : own name) : Works own d (d.unlink name) where
  next_le := le_rfl
  entries other hother := by
    refine Function.update_of_ne ?_ _ _
    rintro rfl
    exact hother hown
  others _ _ _ _ := ⟨rfl, rfl⟩
  kept _ _ hsynced := ⟨rfl, hsynced⟩

theorem works_rename (h : d.rename source target = some e) (hsource : own source)
    (htarget : own target) : Works own d e := by
  obtain ⟨file, hfile, hentries, hnext, hcontents, hsynced⟩ := rename_spec h
  exact {
    next_le := hnext.ge
    entries := fun other hother => by
      rw [hentries, Function.update_of_ne, Function.update_of_ne]
      · rintro rfl
        exact hother hsource
      · rintro rfl
        exact hother htarget
    others := fun _ _ _ _ => by
      rw [hcontents, hsynced]
      exact ⟨rfl, rfl⟩
    kept := fun _ _ hsync => by
      rw [hcontents, hsynced]
      exact ⟨rfl, hsync⟩ }

end Names

end Directory
