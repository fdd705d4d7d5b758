import JobPing.TrackerFiles
import JobPing.TrackerHistory

/-!
# Files and the store of trackers

How the directory of `TrackerFiles` corresponds to the store of trackers in which a document is
saved at once (`Refines`): every document is whole, each process stands in the store where it stands
in the directory, or further on, and what the store has locked is locked by a file. A process works
under the names of the tracker that it has, so what it does leaves the others where they are
(`Refines.move`). One that fails is interrupted in the store, whatever is left to clean up
(`Refines.fail`).
-/

namespace JobPing

/-! ## Steps of the store -/

namespace TrackerWorld

variable {L : Libraries} {w w' : TrackerWorld} {p q : ℕ} {place : Runner} {trackerId : Str}
  {poll : Polling}

/-- One process moves, and nothing is written. -/
structure Turns (w w' : TrackerWorld) (p : ℕ) (place : Runner) : Prop where
  at_place : w'.runners p = place
  others : ∀ q, q ≠ p → w'.runners q = w.runners q
  files : w'.files = w.files

theorem turns_goto : w.Turns (w.goto p place) p place where
  at_place := Function.update_self _ _ _
  others _ hne := Function.update_of_ne hne _ _
  files := rfl

theorem turns_release : w.Turns (w.release p trackerId place) p place where
  at_place := Function.update_self _ _ _
  others _ hne := Function.update_of_ne hne _ _
  files := rfl

/-- A process that is not dead ends when it is interrupted. -/
theorem turns_interrupt (hlive : ∀ trackerId, w.runners p ≠ .dead trackerId) :
    w.Turns (TrackerAction.exec L w (.interrupt p)) p .idle := by
  rw [TrackerAction.exec]
  split
  next trackerId hdead => exact absurd hdead (hlive trackerId)
  · split
    · exact turns_goto
    · exact turns_release

/-- What is left of a process that is killed. -/
def leftOf (place : Runner) : Runner :=
  match place.held with
  | none => .idle
  | some trackerId => .dead trackerId

theorem turns_kill : w.Turns (TrackerAction.exec L w (.kill p)) p (leftOf (w.runners p)) := by
  rw [TrackerAction.exec, leftOf]
  cases (w.runners p).held <;> exact turns_goto

theorem turns_clear (h : w.runners p = .dead trackerId ∨ w.runners p = .idle) :
    w.Turns (TrackerAction.exec L w (.clear p)) p .idle := by
  rw [TrackerAction.exec]
  rcases h with h | h
  · rw [h]
    exact turns_release
  · rw [h]
    exact ⟨h, fun _ _ => rfl, rfl⟩

/-! ### Locks -/

/-- A tracker is locked by a process, if it is. -/
def Held (w : TrackerWorld) : Prop :=
  ∀ trackerId, w.locks trackerId = true → ∃ p, (w.runners p).held = some trackerId

theorem Held.goto (h : w.Held)
    (hheld : (w.runners p).held = none ∨ place.held = (w.runners p).held) :
    (w.goto p place).Held := fun trackerId hlock => by
  obtain ⟨q, hq⟩ := h trackerId hlock
  refine ⟨q, ?_⟩
  rw [runners_goto]
  split_ifs with hqp
  · subst hqp
    rcases hheld with hnone | hsame
    · rw [hnone] at hq
      cases hq
    · rw [hsame, hq]
  · exact hq

theorem Held.release (h : w.Held) (hheld : (w.runners p).held = some trackerId) :
    (w.release p trackerId place).Held := fun id hlock => by
  have hlock' : Function.update w.locks trackerId false id = true := hlock
  rw [Function.update_apply] at hlock'
  split_ifs at hlock' with hne
  obtain ⟨q, hq⟩ := h id hlock'
  refine ⟨q, ?_⟩
  change ((w.goto p place).runners q).held = some id
  rw [runners_goto, if_neg]
  · exact hq
  · rintro rfl
    exact hne (Option.some.inj (hq.symm.trans hheld))

theorem Held.lock (h : w.Held) (hplace : w.runners p = .polling poll) : (w.lock p poll).Held := by
  have hnone : (w.runners p).held = none := by
    rw [hplace]
    rfl
  unfold TrackerWorld.lock
  split_ifs
  · intro id hlock
    have hlock' : Function.update w.locks poll.trackerId true id = true := hlock
    rw [Function.update_apply] at hlock'
    split_ifs at hlock' with hid
    · refine ⟨p, ?_⟩
      change ((w.goto p (.locked poll)).runners p).held = some id
      rw [runners_goto, if_pos rfl, hid]
      rfl
    · exact (h.goto (.inl hnone)) id hlock'
  · exact h.goto (.inl hnone)

theorem Held.exec (h : w.Held) (action : TrackerAction) : (action.exec L w).Held := by
  cases action with
  | run p trackerId watch maxChecks =>
    rw [TrackerAction.exec]
    split
    next hidle => exact h.goto (.inl (by rw [hidle]; rfl))
    · exact h
  | step p W readable saved =>
    rw [TrackerAction.exec]
    split
    next poll hplace => exact h.lock hplace
    next poll hplace =>
      have hheld : (w.runners p).held = some poll.trackerId := by
        rw [hplace]
        rfl
      unfold TrackerWorld.load
      split
      · exact h.release hheld
      · split_ifs
        · exact h.goto (.inr hheld.symm)
        · exact h.release hheld
    next poll tracker hplace =>
      have hheld : (w.runners p).held = some poll.trackerId := by
        rw [hplace]
        rfl
      unfold TrackerWorld.check
      split
      · split_ifs
        · exact Held.release (w := w.save _) h hheld
        · exact h.release hheld
      · exact h.release hheld
      · exact h.release hheld
    · exact h
  | interrupt p =>
    rw [TrackerAction.exec]
    split
    · exact h
    · split
      next hnone => exact h.goto (.inl hnone)
      next hheld => exact h.release hheld
  | kill p =>
    rw [TrackerAction.exec]
    split
    next hnone => exact h.goto (.inl hnone)
    next hheld => exact h.goto (.inr hheld.symm)
  | create W draft saved =>
    rw [TrackerAction.exec]
    unfold TrackerWorld.create
    split
    · split_ifs
      · exact h
      · exact h
    · exact h
  | clear p =>
    rw [TrackerAction.exec]
    split
    next hdead => exact h.release (by rw [hdead]; rfl)
    · exact h

theorem held_after (actions : List TrackerAction) : (after L actions).Held := by
  unfold after
  induction actions using List.reverseRecOn with
  | nil => exact fun _ hlock => absurd hlock Bool.false_ne_true
  | append_singleton actions action ih =>
    rw [List.foldl_append]
    exact ih.exec action

theorem after_concat (actions : List TrackerAction) (action : TrackerAction) :
    after L (actions ++ [action]) = action.exec L (after L actions) := by
  unfold after
  rw [List.foldl_append]
  rfl

end TrackerWorld

/-! ## Names of a tracker -/

/-- A name of the files of a tracker. -/
def NameOf (trackerId name : Str) : Prop := name.take 32 = trackerId

theorem name_of_append {trackerId : Str} (h : isTrackerId trackerId = true) (suffix : Str) :
    NameOf trackerId (trackerId ++ suffix) := by
  have hlength : trackerId.length = 32 := by
    unfold isTrackerId at h
    simp only [Bool.and_eq_true, decide_eq_true_eq] at h
    exact h.1
  exact List.take_left' hlength

theorem getLast?_document (trackerId : Str) : (documentName trackerId).getLast? = some 'n' := by
  rw [documentName, List.getLast?_append]
  rfl

theorem getLast?_lock (trackerId : Str) : (lockName trackerId).getLast? = some 'k' := by
  rw [lockName, List.getLast?_append]
  rfl

theorem getLast?_temporary (trackerId uuid : Str) :
    (temporaryName trackerId uuid).getLast? = some 'p' := by
  rw [temporaryName, List.getLast?_append, List.getLast?_append]
  rfl

theorem document_ne_lock (a b : Str) : documentName a ≠ lockName b := fun h => by
  have hlast := congrArg List.getLast? h
  rw [getLast?_document, getLast?_lock] at hlast
  exact absurd hlast (by decide)

theorem document_ne_temporary (a b uuid : Str) : documentName a ≠ temporaryName b uuid :=
  fun h => by
    have hlast := congrArg List.getLast? h
    rw [getLast?_document, getLast?_temporary] at hlast
    exact absurd hlast (by decide)

theorem lock_ne_temporary (a b uuid : Str) : lockName a ≠ temporaryName b uuid := fun h => by
  have hlast := congrArg List.getLast? h
  rw [getLast?_lock, getLast?_temporary] at hlast
  exact absurd hlast (by decide)

/-! ## The refinement -/

/-- The next poll of a process, if there is one. -/
def Runner.resumed : Option Polling → Runner
  | none => .idle
  | some poll => .polling poll

theorem Polling.next_eq (poll : Polling) : poll.next = .resumed poll.after := by
  unfold Polling.next Polling.after
  simp only
  split_ifs <;> rfl

/-- The tracker that a process creates. -/
def TrackerProcess.new : TrackerProcess → Option Str
  | creating tracker => some tracker.id
  | saving none tracker _ => some tracker.id
  | _ => none

namespace TrackerFiles

section Refinement

variable (L : Libraries) (docs : TrackerDocuments)

/-- The document of a tracker is whole and synchronized, if there is one. -/
def Stored (files : Directory Str UInt8) (trackerId : Str) : Option Tracker → Prop
  | none => files.entries (documentName trackerId) = none
  | some tracker => ∃ file, files.entries (documentName trackerId) = some file ∧
      files.synced file = true ∧ files.contents file = docs.dump tracker

/-- The document that the tracker had at some point. -/
def Seen (actions : List TrackerAction) (trackerId : Str) (text : List UInt8) : Prop :=
  ∃ earlier tracker, earlier <+: actions ∧
    (TrackerWorld.after L earlier).files trackerId = some tracker ∧ text = docs.dump tracker

/-- A new tracker with its baseline. -/
def IsNew (tracker : Tracker) : Prop :=
  ∃ (W : CheckWorld) (draft : Tracker) (baseline : Check),
    checkTracker L W { draft with history := [] } = .ok baseline ∧
      tracker = { draft with history := [baseline] }

/-- What is saved: a new tracker, or one that was loaded with the result of a check. -/
def Saves (runner : Runner) (tracker : Tracker) : Option Polling → Prop
  | none => runner = .idle ∧ IsNew L tracker
  | some poll => ∃ before W result, runner = .checking poll before ∧
      checkTracker L W before = .ok result ∧ tracker = before.append result ∧
      tracker.id = poll.trackerId

/-- What is written so far. -/
def Written (files : Directory Str UInt8) (tracker : Tracker) : SavePhase → Prop
  | .opening => True
  | .writing temporary file rest => (∃ uuid, temporary = temporaryName tracker.id uuid) ∧
      files.entries temporary = some file ∧ files.synced file = false ∧
      files.contents file ++ rest = docs.dump tracker
  | .replacing temporary => (∃ uuid, temporary = temporaryName tracker.id uuid) ∧
      ∃ file, files.entries temporary = some file ∧ files.synced file = true ∧
        files.contents file = docs.dump tracker

/-- Where the process of the store stands that is the one of the directory, and what this one has
found in the files. -/
def Fits (files : Directory Str UInt8) (actions : List TrackerAction) (runner : Runner) :
    TrackerProcess → Prop
  | .idle => runner = .idle
  | .dead trackerId => runner = .dead trackerId ∨ runner = .idle
  | .locking poll => runner = .polling poll
  | .opening poll => runner = .locked poll
  | .reading poll file text => runner = .locked poll ∧
      files.entries (documentName poll.trackerId) = some file ∧ files.synced file = true ∧
      text <+: files.contents file
  | .checking poll tracker => runner = .checking poll tracker
  | .creating tracker => runner = .idle ∧ IsNew L tracker
  | .saving poll tracker phase => Saves L runner tracker poll ∧ Written docs files tracker phase
  | .discarding trackerId temporary after => runner = .resumed after ∧
      ∃ uuid, temporary = temporaryName trackerId uuid
  | .releasing _ after => runner = .resumed after
  | .showing _ => runner = .idle
  | .viewing trackerId file text => runner = .idle ∧ file < files.next ∧
      files.synced file = true ∧ text <+: files.contents file ∧
      Seen L docs actions trackerId (files.contents file)
  | .shown trackerId text => runner = .idle ∧ Seen L docs actions trackerId text

/-- **The directory refines the store** after some of its actions. -/
structure Refines (s : TrackerFiles) (actions : List TrackerAction) : Prop where
  exclusive : ∀ p q trackerId, (s.processes p).holds = some trackerId →
    (s.processes q).holds = some trackerId → p = q
  locks : ∀ p trackerId, (s.processes p).holds = some trackerId →
    isTrackerId trackerId = true ∧ s.files.entries (lockName trackerId) ≠ none
  documents : ∀ trackerId, isTrackerId trackerId = true →
    Stored docs s.files trackerId ((TrackerWorld.after L actions).files trackerId)
  fits : ∀ p, Fits L docs s.files actions ((TrackerWorld.after L actions).runners p) (s.processes p)
  drawn : ∀ trackerId tracker,
    (TrackerWorld.after L actions).files trackerId = some tracker → trackerId ∈ s.drawn
  fresh : ∀ p trackerId, (s.processes p).new = some trackerId →
    trackerId ∈ s.drawn ∧ (TrackerWorld.after L actions).files trackerId = none
  fresh_once : ∀ p q trackerId, (s.processes p).new = some trackerId →
    (s.processes q).new = some trackerId → p = q
  bounded : ∃ n, ∀ p, n ≤ p → s.processes p = .idle

end Refinement

variable {L : Libraries} {docs : TrackerDocuments} {s : TrackerFiles}
  {actions more : List TrackerAction} {files files' : Directory Str UInt8} {own : Str → Prop}
  {process : TrackerProcess} {p : ℕ} {place runner : Runner} {trackerId : Str}
  {poll : Polling} {tracker : Tracker} {drawn : List Str}

theorem Refines.fits_at (h : Refines L docs s actions) (hprocess : s.processes p = process) :
    Fits L docs s.files actions ((TrackerWorld.after L actions).runners p) process :=
  hprocess ▸ h.fits p

theorem Seen.mono {text : List UInt8} (h : Seen L docs actions trackerId text) :
    Seen L docs (actions ++ more) trackerId text := by
  obtain ⟨earlier, tracker, hinitial, hseen⟩ := h
  exact ⟨earlier, tracker, hinitial.trans (List.prefix_append _ _), hseen⟩

theorem Saves.id_eq (h : Saves L runner tracker (some poll)) : tracker.id = poll.trackerId := by
  obtain ⟨before, W, result, -, -, -, hid⟩ := h
  exact hid

/-- The process that saves a tracker has it. -/
theorem Saves.holds {poll : Option Polling} {phase : SavePhase} (h : Saves L runner tracker poll) :
    (TrackerProcess.saving poll tracker phase).holds = some tracker.id := by
  cases poll with
  | none => rfl
  | some poll => exact congrArg some h.id_eq.symm

/-- What is written is not touched by the work of others. -/
theorem Written.works {phase : SavePhase} (h : Written docs files tracker phase)
    (hworks : Directory.Works own files files')
    (hother : ∀ name, NameOf tracker.id name → ¬ own name)
    (hid : isTrackerId tracker.id = true) : Written docs files' tracker phase := by
  have htemporary (uuid : Str) : ¬ own (temporaryName tracker.id uuid) :=
    hother _ (name_of_append hid _)
  cases phase with
  | opening => trivial
  | writing temporary file rest =>
    obtain ⟨⟨uuid, rfl⟩, hentry, hopen, hcontents⟩ := h
    obtain ⟨hsame, hsynced⟩ := hworks.others _ _ (htemporary uuid) hentry
    exact ⟨⟨uuid, rfl⟩, (hworks.entries _ (htemporary uuid)).trans hentry,
      hsynced.trans hopen, hsame ▸ hcontents⟩
  | replacing temporary =>
    obtain ⟨⟨uuid, rfl⟩, file, hentry, hsync, hcontents⟩ := h
    obtain ⟨hsame, hsynced⟩ := hworks.others _ _ (htemporary uuid) hentry
    exact ⟨⟨uuid, rfl⟩, file, (hworks.entries _ (htemporary uuid)).trans hentry,
      hsynced.trans hsync, hsame.trans hcontents⟩

/-- **A process fits** whatever others do under other names. -/
theorem Fits.works (h : Fits L docs files actions runner process)
    (hworks : Directory.Works own files files')
    (hother : ∀ trackerId, process.holds = some trackerId →
      isTrackerId trackerId = true ∧ ∀ name, NameOf trackerId name → ¬ own name) :
    Fits L docs files' (actions ++ more) runner process := by
  cases process with
  | reading poll file text =>
    obtain ⟨hrunner, hentry, hsynced, hread⟩ := h
    obtain ⟨hid, hnames⟩ := hother poll.trackerId rfl
    have hdocument : ¬ own (documentName poll.trackerId) := hnames _ (name_of_append hid _)
    obtain ⟨hsame, hsync⟩ := hworks.others _ _ hdocument hentry
    exact ⟨hrunner, (hworks.entries _ hdocument).trans hentry, hsync.trans hsynced, hsame ▸ hread⟩
  | saving poll tracker phase =>
    obtain ⟨hsaves, hwritten⟩ := h
    refine ⟨hsaves, ?_⟩
    cases poll with
    | none =>
      obtain ⟨hid, hnames⟩ := hother tracker.id rfl
      exact hwritten.works hworks hnames hid
    | some poll =>
      obtain ⟨hid, hnames⟩ := hother poll.trackerId rfl
      exact hwritten.works hworks (hsaves.id_eq ▸ hnames) (hsaves.id_eq ▸ hid)
  | viewing trackerId file text =>
    obtain ⟨hrunner, hfile, hsynced, hread, hseen⟩ := h
    obtain ⟨hsame, hsync⟩ := hworks.kept file hfile hsynced
    exact ⟨hrunner, hfile.trans_le hworks.next_le, hsync, hsame ▸ hread, hsame ▸ hseen.mono⟩
  | shown trackerId text => exact ⟨h.1, h.2.mono⟩
  | idle => exact h
  | dead trackerId => exact h
  | locking poll => exact h
  | opening poll => exact h
  | checking poll tracker => exact h
  | creating tracker => exact h
  | discarding trackerId temporary after => exact h
  | releasing trackerId after => exact h
  | showing trackerId => exact h

/-- A document whose name is not touched. -/
theorem Stored.works {stored : Option Tracker} (h : Stored docs files trackerId stored)
    (hworks : Directory.Works own files files')
    (hentry : files'.entries (documentName trackerId) =
      files.entries (documentName trackerId)) :
    Stored docs files' trackerId stored := by
  cases stored with
  | none => exact hentry.trans h
  | some tracker =>
    obtain ⟨file, hfile, hsynced, hcontents⟩ := h
    obtain ⟨hsame, hsync⟩ := hworks.kept file (files.linked _ _ hfile) hsynced
    exact ⟨file, hentry.trans hfile, hsync, hsame.trans hcontents⟩

/-! ### One process moves -/

/-- **One process moves**: what it does under its own names leaves the other processes where they
are. -/
theorem Refines.move (h : Refines L docs s actions) (hsub : s.drawn ⊆ drawn)
    (hworks : Directory.Works own s.files files)
    (halone : ∀ q, q ≠ p → ∀ trackerId, (s.processes q).holds = some trackerId →
      ∀ name, NameOf trackerId name → ¬ own name)
    (hholds : ∀ trackerId, process.holds = some trackerId → isTrackerId trackerId = true ∧
      files.entries (lockName trackerId) ≠ none ∧
        ∀ q, q ≠ p → (s.processes q).holds ≠ some trackerId)
    (hothers : ∀ q, q ≠ p → (TrackerWorld.after L (actions ++ more)).runners q =
      (TrackerWorld.after L actions).runners q)
    (hdocuments : ∀ trackerId, isTrackerId trackerId = true →
      Stored docs files trackerId ((TrackerWorld.after L (actions ++ more)).files trackerId))
    (hdrawn : ∀ trackerId tracker, (TrackerWorld.after L (actions ++ more)).files trackerId =
      some tracker → trackerId ∈ drawn)
    (hfresh : ∀ q trackerId, ((s.proceed p files process).processes q).new = some trackerId →
      (TrackerWorld.after L (actions ++ more)).files trackerId = none)
    (hnew : ∀ trackerId, process.new = some trackerId → trackerId ∈ drawn ∧
      ∀ q, q ≠ p → (s.processes q).new ≠ some trackerId)
    (hfits : Fits L docs files (actions ++ more)
      ((TrackerWorld.after L (actions ++ more)).runners p) process) :
    Refines L docs { s.proceed p files process with drawn := drawn } (actions ++ more) := by
  set t : TrackerFiles := { s.proceed p files process with drawn := drawn }
  have hat : t.processes p = process := Function.update_self _ _ _
  have hof {q : ℕ} (hq : q ≠ p) : t.processes q = s.processes q := Function.update_of_ne hq _ _
  refine {
    exclusive := fun q q' trackerId hq hq' => ?_
    locks := fun q trackerId hq => ?_
    documents := hdocuments
    fits := fun q => ?_
    drawn := hdrawn
    fresh := fun q trackerId hq => ⟨?_, hfresh q trackerId hq⟩
    fresh_once := fun q q' trackerId hq hq' => ?_
    bounded := ?_ }
  · by_cases hqp : q = p
    · by_cases hqp' : q' = p
      · exact hqp.trans hqp'.symm
      · rw [hqp, hat] at hq
        rw [hof hqp'] at hq'
        exact absurd hq' ((hholds trackerId hq).2.2 q' hqp')
    · by_cases hqp' : q' = p
      · rw [hqp', hat] at hq'
        rw [hof hqp] at hq
        exact absurd hq ((hholds trackerId hq').2.2 q hqp)
      · rw [hof hqp] at hq
        rw [hof hqp'] at hq'
        exact h.exclusive q q' trackerId hq hq'
  · by_cases hqp : q = p
    · rw [hqp, hat] at hq
      exact ⟨(hholds trackerId hq).1, (hholds trackerId hq).2.1⟩
    · rw [hof hqp] at hq
      obtain ⟨hid, hlock⟩ := h.locks q trackerId hq
      have hname : ¬ own (lockName trackerId) :=
        halone q hqp trackerId hq _ (name_of_append hid _)
      exact ⟨hid, (hworks.entries _ hname).symm ▸ hlock⟩
  · by_cases hqp : q = p
    · rw [hqp, hat]
      exact hfits
    · rw [hof hqp, hothers q hqp]
      exact (h.fits q).works hworks fun trackerId hq =>
        ⟨(h.locks q trackerId hq).1, halone q hqp trackerId hq⟩
  · by_cases hqp : q = p
    · rw [hqp, hat] at hq
      exact (hnew trackerId hq).1
    · rw [hof hqp] at hq
      exact hsub (h.fresh q trackerId hq).1
  · by_cases hqp : q = p
    · by_cases hqp' : q' = p
      · exact hqp.trans hqp'.symm
      · rw [hqp, hat] at hq
        rw [hof hqp'] at hq'
        exact absurd hq' ((hnew trackerId hq).2 q' hqp')
    · by_cases hqp' : q' = p
      · rw [hqp', hat] at hq'
        rw [hof hqp] at hq
        exact absurd hq ((hnew trackerId hq').2 q hqp)
      · rw [hof hqp] at hq
        rw [hof hqp'] at hq'
        exact h.fresh_once q q' trackerId hq hq'
  · obtain ⟨n, hidle⟩ := h.bounded
    refine ⟨max n (p + 1), fun q hq => ?_⟩
    rw [hof (by omega)]
    exact hidle q (le_trans (le_max_left _ _) hq)

/-- **A turn** that writes no document. -/
theorem Refines.turn (h : Refines L docs s actions)
    (hworks : Directory.Works own s.files files)
    (halone : ∀ q, q ≠ p → ∀ trackerId, (s.processes q).holds = some trackerId →
      ∀ name, NameOf trackerId name → ¬ own name)
    (hholds : ∀ trackerId, process.holds = some trackerId → isTrackerId trackerId = true ∧
      files.entries (lockName trackerId) ≠ none ∧
        ∀ q, q ≠ p → (s.processes q).holds ≠ some trackerId)
    (hentry : ∀ trackerId, isTrackerId trackerId = true →
      files.entries (documentName trackerId) = s.files.entries (documentName trackerId))
    (hturns : (TrackerWorld.after L actions).Turns (TrackerWorld.after L (actions ++ more)) p place)
    (hnew : ∀ trackerId, process.new = some trackerId → (s.processes p).new = some trackerId)
    (hfits : Fits L docs files (actions ++ more) place process) :
    Refines L docs (s.proceed p files process) (actions ++ more) := by
  refine h.move (List.Subset.refl _) hworks halone hholds hturns.others (fun trackerId hid => ?_)
    (fun trackerId tracker htracker => ?_) (fun q trackerId hq => ?_)
    (fun trackerId hprocess => ⟨(h.fresh p trackerId (hnew trackerId hprocess)).1,
      fun q hq hother => hq (h.fresh_once q p trackerId hother (hnew trackerId hprocess))⟩) ?_
  · rw [hturns.files]
    exact (h.documents trackerId hid).works hworks (hentry trackerId hid)
  · rw [hturns.files] at htracker
    exact h.drawn trackerId tracker htracker
  · rw [hturns.files]
    refine (h.fresh q trackerId ?_).2
    by_cases hqp : q = p
    · subst hqp
      have hat : (s.proceed q files process).processes q = process := Function.update_self _ _ _
      rw [hat] at hq
      exact hnew trackerId hq
    · exact (congrArg TrackerProcess.new (Function.update_of_ne hqp _ _)).symm.trans hq
  · rw [hturns.at_place]
    exact hfits

/-- The process holds what it held, or nothing. -/
theorem Refines.holds (h : Refines L docs s actions)
    (hholds : process.holds = none ∨ process.holds = (s.processes p).holds)
    (hlock : ∀ trackerId, files.entries (lockName trackerId) =
      s.files.entries (lockName trackerId)) (trackerId : Str)
    (hprocess : process.holds = some trackerId) : isTrackerId trackerId = true ∧
      files.entries (lockName trackerId) ≠ none ∧
        ∀ q, q ≠ p → (s.processes q).holds ≠ some trackerId := by
  rcases hholds with hnone | hsame
  · rw [hnone] at hprocess
    cases hprocess
  · rw [hsame] at hprocess
    obtain ⟨hid, hmade⟩ := h.locks p trackerId hprocess
    exact ⟨hid, (hlock trackerId).symm ▸ hmade, fun q hq hheld =>
      hq (h.exclusive q p trackerId hheld hprocess)⟩

/-- **A turn** that leaves the files as they are. -/
theorem Refines.stay (h : Refines L docs s actions)
    (hholds : process.holds = none ∨ process.holds = (s.processes p).holds)
    (hturns : (TrackerWorld.after L actions).Turns (TrackerWorld.after L (actions ++ more)) p place)
    (hnew : ∀ trackerId, process.new = some trackerId → (s.processes p).new = some trackerId)
    (hfits : Fits L docs s.files (actions ++ more) place process) :
    Refines L docs (s.proceed p s.files process) (actions ++ more) := by
  have hnothing : Directory.Works (fun _ => False) s.files s.files := .refl
  exact h.turn hnothing (fun _ _ _ _ _ _ => not_false) (h.holds hholds fun _ => rfl)
    (fun _ _ => rfl) hturns hnew hfits

/-- The other processes have other trackers. -/
theorem Refines.alone (h : Refines L docs s actions)
    (hholds : (s.processes p).holds = some trackerId) (q : ℕ) (hq : q ≠ p) (other : Str)
    (hother : (s.processes q).holds = some other) (name : Str) (hname : NameOf other name) :
    ¬ NameOf trackerId name := fun hname' => by
  have hsame : trackerId = other := hname'.symm.trans hname
  exact hq (h.exclusive q p trackerId (hsame ▸ hother) hholds)

/-! ### Moves of the store -/

theorem turns_none (h : (TrackerWorld.after L actions).runners p = place) :
    (TrackerWorld.after L actions).Turns (TrackerWorld.after L (actions ++ [])) p place := by
  rw [List.append_nil]
  exact ⟨h, fun _ _ => rfl, rfl⟩

theorem turns_one {action : TrackerAction} (h : (TrackerWorld.after L actions).Turns
      (action.exec L (TrackerWorld.after L actions)) p place) :
    (TrackerWorld.after L actions).Turns (TrackerWorld.after L (actions ++ [action])) p place := by
  rw [TrackerWorld.after_concat]
  exact h

/-- The store locks only what the process holds. -/
theorem Fits.held (h : Fits L docs files actions runner process) :
    runner.held = none ∨ runner.held = process.holds := by
  cases process with
  | dead trackerId =>
    rcases h with rfl | rfl
    · exact .inr rfl
    · exact .inl rfl
  | saving poll tracker phase =>
    cases poll with
    | none => exact .inl (h.1.1 ▸ rfl)
    | some poll =>
      obtain ⟨before, W, result, rfl, -⟩ := h.1
      exact .inr rfl
  | discarding trackerId temporary after =>
    obtain ⟨rfl, -⟩ := h
    exact .inl (by cases after <;> rfl)
  | releasing trackerId after =>
    obtain rfl := h
    exact .inl (by cases after <;> rfl)
  | opening poll => exact .inr (h ▸ rfl)
  | reading poll file text => exact .inr (h.1 ▸ rfl)
  | checking poll tracker => exact .inr (h ▸ rfl)
  | idle => exact .inl (h ▸ rfl)
  | locking poll => exact .inl (h ▸ rfl)
  | creating tracker => exact .inl (h.1 ▸ rfl)
  | showing trackerId => exact .inl (h ▸ rfl)
  | viewing trackerId file text => exact .inl (h.1 ▸ rfl)
  | shown trackerId text => exact .inl (h.1 ▸ rfl)

/-- A process that is not dead is not dead in the store. -/
theorem Fits.live (h : Fits L docs files actions (.dead trackerId) process) :
    process = .dead trackerId := by
  cases process with
  | dead other =>
    rcases h with h | h
    · rw [Runner.dead.inj h]
    · cases h
  | saving poll tracker phase =>
    cases poll with
    | none => cases h.1.1
    | some poll =>
      obtain ⟨before, W, result, hrunner, -⟩ := h.1
      cases hrunner
  | discarding other temporary after =>
    obtain ⟨hrunner, -⟩ := h
    cases after <;> cases hrunner
  | releasing other after => cases after <;> cases h
  | reading poll file text => cases h.1
  | creating tracker => cases h.1
  | viewing other file text => cases h.1
  | shown other text => cases h.1
  | idle => cases h
  | locking poll => cases h
  | opening poll => cases h
  | checking poll tracker => cases h
  | showing other => cases h

/-- **A process fails**, and is interrupted in the store. -/
theorem Refines.fail (h : Refines L docs s actions)
    (hlive : ∀ trackerId, s.processes p ≠ .dead trackerId)
    (hholds : process.holds = none ∨ process.holds = (s.processes p).holds)
    (hnew : process.new = none)
    (hfits : Fits L docs s.files (actions ++ [.interrupt p]) .idle process) :
    ∃ more, Refines L docs (s.proceed p s.files process) (actions ++ more) := by
  refine ⟨[.interrupt p], h.stay hholds (turns_one (TrackerWorld.turns_interrupt ?_))
    (fun trackerId hsome => ?_) hfits⟩
  · intro trackerId hdead
    have hfits := h.fits p
    rw [hdead] at hfits
    exact hlive trackerId hfits.live
  · rw [hnew] at hsome
    cases hsome

/-- **A process goes on** while nothing moves in the store. -/
theorem Refines.go (h : Refines L docs s actions)
    (hholds : process.holds = none ∨ process.holds = (s.processes p).holds)
    (hrunner : (TrackerWorld.after L actions).runners p = runner)
    (hnew : ∀ trackerId, process.new = some trackerId → (s.processes p).new = some trackerId)
    (hfits : Fits L docs s.files actions runner process) :
    ∃ more, Refines L docs (s.proceed p s.files process) (actions ++ more) := by
  refine ⟨[], h.stay hholds (turns_none hrunner) hnew ?_⟩
  rw [List.append_nil]
  exact hfits

/-- Where an exception leads, the process fits one that has ended, and holds what it held. -/
theorem Fits.raised {uuid : Str} {process' : TrackerProcess}
    (h : Fits L docs files actions runner process) (hraised : process.raised uuid = some process') :
    (process'.holds = none ∨ process'.holds = process.holds) ∧ process'.new = none ∧
      Fits L docs files (actions ++ more) .idle process' := by
  cases process with
  | saving poll tracker phase =>
    have hholder : (TrackerProcess.saving poll tracker phase).holds = some tracker.id := h.1.holds
    cases phase with
    | opening =>
      cases hraised
      exact ⟨.inr hholder.symm, rfl, rfl, uuid, rfl⟩
    | writing temporary file rest =>
      cases hraised
      exact ⟨.inr hholder.symm, rfl, rfl, h.2.1⟩
    | replacing temporary =>
      cases hraised
      exact ⟨.inr hholder.symm, rfl, rfl, h.2.1⟩
  | releasing trackerId after =>
    cases hraised
    exact ⟨.inr rfl, rfl, .inr rfl⟩
  | idle => cases hraised
  | dead trackerId => cases hraised
  | opening poll =>
    cases hraised
    exact ⟨.inr rfl, rfl, rfl⟩
  | reading poll file text =>
    cases hraised
    exact ⟨.inr rfl, rfl, rfl⟩
  | checking poll tracker =>
    cases hraised
    exact ⟨.inr rfl, rfl, rfl⟩
  | discarding trackerId temporary after =>
    cases hraised
    exact ⟨.inr rfl, rfl, rfl⟩
  | locking poll =>
    cases hraised
    exact ⟨.inl rfl, rfl, rfl⟩
  | creating tracker =>
    cases hraised
    exact ⟨.inl rfl, rfl, rfl⟩
  | showing trackerId =>
    cases hraised
    exact ⟨.inl rfl, rfl, rfl⟩
  | viewing trackerId file text =>
    cases hraised
    exact ⟨.inl rfl, rfl, rfl⟩
  | shown trackerId text =>
    cases hraised
    exact ⟨.inl rfl, rfl, rfl⟩

theorem Refines.raise (h : Refines L docs s actions) {uuid : Str}
    (hraised : (s.processes p).raised uuid = some process) :
    ∃ more, Refines L docs (s.proceed p s.files process) (actions ++ more) := by
  obtain ⟨hholds, hnew, hfits⟩ := (h.fits p).raised hraised
  refine h.fail (fun trackerId hdead => ?_) hholds hnew hfits
  rw [hdead] at hraised
  cases hraised

end TrackerFiles

end JobPing
