import JobPing.PageExtraction
import JobPing.Raising
import JobPing.Trackers
import Mathlib.Data.List.Chain

/-!
# Histories of trackers

A check reports the differences between its snapshot and the one before it
(`checkTracker_faithful`). The lock of a tracker keeps its document as the process that holds it
has loaded it, so the checks of a document follow from one another, in whatever order the processes
take their steps (`tracker_history`).
-/

namespace JobPing

open KeyedDiff

/-! ## One check -/

/-- The jobs of a check by their URLs. -/
def Check.snapshot (check : Check) : Str → Option JobObservation :=
  rowsByKey (·.url) check.jobs

/-- A snapshot with changes made. -/
def applyChanges (snapshot : Str → Option JobObservation) (changes : List JobChange) :
    Str → Option JobObservation :=
  patch (·.url) (·.after) snapshot changes

/-- A check tells what became of the snapshot of the previous one. -/
structure FaithfulCheck (previous : Option Check) (check : Check) : Prop where
  baseline : check.baseline = previous.isNone
  jobs_sorted : (check.jobs.map (·.url)).Pairwise (· < ·)
  changes_sorted : (check.changes.map (·.url)).Pairwise (· < ·)
  applied : ∀ last ∈ previous, applyChanges last.snapshot check.changes = check.snapshot
  unchanged : check.changes = [] ↔ ∀ last ∈ previous, last.snapshot = check.snapshot
  reported : ∀ change ∈ check.changes, ∃ last ∈ previous,
    change.before = last.snapshot change.url ∧ change.after = check.snapshot change.url ∧
      change.kind = changeKind change.before change.after

variable {L : Libraries} {W : CheckWorld} {tracker : Tracker} {links : List Str}
  {observation : Observation} {jobs : List JobObservation} {check last : Check} {url : Str}

/-- Texts sorted without repetition. -/
theorem insertionSort_nodup {urls : List Str} (h : urls.Nodup) :
    (urls.insertionSort (· ≤ ·)).Pairwise (· < ·) := by
  have hsorted := List.pairwise_insertionSort (· ≤ ·) urls
  have hnodup : (urls.insertionSort (· ≤ ·)).Pairwise (· ≠ ·) :=
    (List.perm_insertionSort (· ≤ ·) urls).nodup_iff.mpr h
  exact (hsorted.and hnodup).imp fun hpair => lt_of_le_of_ne hpair.1 hpair.2

theorem acceptedJobs_sorted (h : acceptedJobs L tracker links observation = .ok jobs) :
    (jobs.map (·.url)).Pairwise (· < ·) := by
  have hsorted : ((observation.jobs.insertionSort (·.url ≤ ·.url)).map (·.url)).Pairwise (· ≤ ·) :=
    List.pairwise_map.mpr (List.pairwise_insertionSort _ _)
  simp only [acceptedJobs] at h
  split_ifs at h with _ hurls
  obtain rfl := Except.ok.inj h
  have hnodup := not_not.mp (not_or.mp hurls).1
  exact (hsorted.and hnodup).imp fun hpair => lt_of_le_of_ne hpair.1 hpair.2

/-- `changes` of a check. -/
def historyChanges (history : List Check) (jobs : List JobObservation) : List JobChange :=
  match history.getLast? with
  | none => []
  | some last => changesBetween (jobsByUrl last.jobs) (jobsByUrl jobs)

/-- What a successful check holds. -/
theorem checkTracker_ok (h : checkTracker L W tracker = .ok check) :
    (check.jobs.map (·.url)).Pairwise (· < ·) ∧ check.baseline = tracker.history.isEmpty ∧
      check.changes = historyChanges tracker.history check.jobs := by
  unfold checkTracker at h
  split_ifs at h
  obtain ⟨page, -, h⟩ := Raising.bind_eq_ok.mp h
  obtain ⟨observation, -, h⟩ := Raising.bind_eq_ok.mp h
  obtain ⟨jobs, hjobs, h⟩ := Raising.bind_eq_ok.mp h
  obtain rfl := Except.ok.inj h
  exact ⟨acceptedJobs_sorted hjobs, rfl, rfl⟩

/-- The changes between two snapshots are their difference. -/
theorem changesBetween_eq (jobs jobs' : List JobObservation) :
    changesBetween (jobsByUrl jobs) (jobsByUrl jobs') =
      diff (fun url before after => ⟨changeKind before after, url, before, after⟩)
        (rowsByKey (·.url) jobs) (rowsByKey (·.url) jobs')
        ((Dict.keys (jobsByUrl jobs) ++ Dict.keys (jobsByUrl jobs')).dedup.insertionSort
          (· ≤ ·)) := rfl

theorem changed_mem (jobs jobs' : List JobObservation) (url : Str)
    (hne : rowsByKey (·.url) jobs url ≠ rowsByKey (·.url) jobs' url) :
    url ∈ (Dict.keys (jobsByUrl jobs) ++ Dict.keys (jobsByUrl jobs')).dedup.insertionSort
      (· ≤ ·) := by
  rw [List.mem_insertionSort, List.mem_dedup, List.mem_append]
  by_cases hnone : rowsByKey (·.url) jobs url = none
  · exact .inr (rowsByKey_ne_none fun hnone' => hne (hnone.trans hnone'.symm))
  · exact .inl (rowsByKey_ne_none hnone)

/-- **A check tells what became of the last snapshot** of its tracker, whatever its history is. -/
theorem checkTracker_faithful (h : checkTracker L W tracker = .ok check) :
    FaithfulCheck tracker.history.getLast? check := by
  obtain ⟨hjobs, hbaseline, hchanges⟩ := checkTracker_ok h
  cases hlast : tracker.history.getLast? with
  | none =>
    have hnil : check.changes = [] := by rw [hchanges, historyChanges, hlast]
    exact {
      baseline := by rw [hbaseline, List.getLast?_eq_none_iff.mp hlast]; rfl
      jobs_sorted := hjobs
      changes_sorted := by rw [hnil]; exact .nil
      applied := fun last hmem => absurd hmem (Option.not_mem_none last)
      unchanged := iff_of_true hnil fun last hmem =>
        absurd hmem (Option.not_mem_none last)
      reported := fun change hmem => by rw [hnil] at hmem; cases hmem }
  | some last =>
    have hdiff : check.changes =
        changesBetween (jobsByUrl last.jobs) (jobsByUrl check.jobs) := by
      rw [hchanges, historyChanges, hlast]
    rw [changesBetween_eq] at hdiff
    have hne : tracker.history ≠ [] := by
      rintro hnil
      rw [hnil] at hlast
      cases hlast
    exact {
      baseline := by rw [hbaseline, List.isEmpty_eq_false_iff.mpr hne]; rfl
      jobs_sorted := hjobs
      changes_sorted := by
        rw [hdiff]
        exact (insertionSort_nodup (List.nodup_dedup _)).sublist
          (diff_keys_sublist fun _ _ _ => rfl)
      applied := fun last' hmem => by
        obtain rfl := Option.some.inj hmem
        rw [applyChanges, hdiff]
        exact patch_diff (fun _ _ _ => rfl) (fun _ _ _ => rfl) (changed_mem last.jobs check.jobs)
      unchanged := by
        rw [hdiff, diff_eq_nil_iff (changed_mem last.jobs check.jobs)]
        exact ⟨fun heq last' hmem => Option.some.inj hmem ▸ heq, fun hall => hall last rfl⟩
      reported := fun change hmem => by
        rw [hdiff] at hmem
        obtain ⟨url, -, -, rfl⟩ := mem_diff.mp hmem
        exact ⟨last, rfl, rfl, rfl, rfl⟩ }

/-! ## Histories -/

/-- A check follows another one. -/
structure Follows (last check : Check) : Prop extends FaithfulCheck (some last) check where
  unchanged_jobs : check.changes = [] ↔ last.jobs = check.jobs

/-- The checks that are kept, each after the first following from the one before it. -/
structure FaithfulHistory (history : List Check) : Prop where
  bound : history.length ≤ 100
  jobs_sorted : ∀ check ∈ history, (check.jobs.map (·.url)).Pairwise (· < ·)
  linked : history.IsChain Follows

theorem checkTracker_follows (h : checkTracker L W tracker = .ok check)
    (hhistory : FaithfulHistory tracker.history) (hlast : tracker.history.getLast? = some last) :
    Follows last check := by
  have hfaithful := checkTracker_faithful h
  rw [hlast] at hfaithful
  refine ⟨hfaithful, ?_⟩
  have hsorted := hhistory.jobs_sorted last (List.mem_of_getLast? hlast)
  rw [hfaithful.unchanged, ← rows_eq_iff hsorted hfaithful.jobs_sorted]
  exact ⟨fun hall => hall last rfl, fun heq last' hmem => Option.some.inj hmem ▸ heq⟩

/-- **A successful check** is appended to a history that stays one. -/
theorem FaithfulHistory.append (hhistory : FaithfulHistory tracker.history)
    (h : checkTracker L W tracker = .ok check) :
    FaithfulHistory (tracker.append check).history where
  bound := by
    change ((tracker.history ++ [check]).drop _).length ≤ 100
    rw [List.length_drop]
    omega
  jobs_sorted other hother := by
    rcases List.mem_append.mp (List.mem_of_mem_drop hother) with hother | hother
    · exact hhistory.jobs_sorted other hother
    · obtain rfl := List.mem_singleton.mp hother
      exact (checkTracker_ok h).1
  linked := by
    refine List.IsChain.drop ?_ _
    refine List.isChain_append.mpr ⟨hhistory.linked, List.isChain_singleton _, ?_⟩
    intro last hlast next hnext
    obtain rfl := Option.some.inj hnext
    exact checkTracker_follows h hhistory hlast

theorem FaithfulHistory.baseline (h : checkTracker L W tracker = .ok check) :
    FaithfulHistory [check] where
  bound := by simp
  jobs_sorted other hother := List.mem_singleton.mp hother ▸ (checkTracker_ok h).1
  linked := List.isChain_singleton _

/-! ## Processes -/

theorem Polling.held_next (poll : Polling) : poll.next.held = none := by
  unfold Polling.next
  simp only
  split_ifs <;> rfl

namespace TrackerWorld

variable {w : TrackerWorld} {runner p q : ℕ} {place : Runner} {trackerId : Str}
  {poll : Polling}

/-- A lock file belongs to one process at most, which has loaded the document as it is; and every
document holds a faithful history. -/
structure Inv (w : TrackerWorld) : Prop where
  exclusive : ∀ p q trackerId, (w.runners p).held = some trackerId →
    (w.runners q).held = some trackerId → p = q
  locked : ∀ p trackerId, (w.runners p).held = some trackerId → w.locks trackerId = true
  loaded : ∀ p poll tracker, w.runners p = .checking poll tracker →
    w.files poll.trackerId = some tracker
  documents : ∀ trackerId tracker, w.files trackerId = some tracker →
    tracker.id = trackerId ∧ FaithfulHistory tracker.history

theorem inv_empty : empty.Inv where
  exclusive _ _ _ hp := absurd hp (Option.some_ne_none _).symm
  locked _ _ hp := absurd hp (Option.some_ne_none _).symm
  loaded _ _ _ hp := absurd hp Runner.noConfusion
  documents _ _ hfile := absurd hfile (Option.some_ne_none _).symm

theorem runners_goto : (w.goto runner place).runners q =
    if q = runner then place else w.runners q := Function.update_apply _ _ _ _

/-- A process that goes on holds the lock it held, or none. -/
theorem Inv.goto (h : w.Inv)
    (hheld : place.held = none ∨ place.held = (w.runners runner).held)
    (hloaded : ∀ poll tracker, place = .checking poll tracker →
      w.files poll.trackerId = some tracker) : (w.goto runner place).Inv := by
  have hbefore (p : ℕ) (trackerId : Str)
      (hp : ((w.goto runner place).runners p).held = some trackerId) :
      (w.runners p).held = some trackerId := by
    rw [runners_goto] at hp
    split_ifs at hp with hrunner
    · rcases hheld with hnone | hsame
      · rw [hnone] at hp
        cases hp
      · rw [hrunner, ← hsame, hp]
    · exact hp
  exact {
    exclusive := fun p q trackerId hp hq =>
      h.exclusive p q trackerId (hbefore p trackerId hp) (hbefore q trackerId hq)
    locked := fun p trackerId hp => h.locked p trackerId (hbefore p trackerId hp)
    loaded := fun p poll tracker hp => by
      rw [runners_goto] at hp
      split_ifs at hp
      · exact hloaded poll tracker hp
      · exact h.loaded p poll tracker hp
    documents := h.documents }

/-- A process without a lock. -/
theorem Inv.goto_free (h : w.Inv) (hplace : place.held = none) : (w.goto runner place).Inv := by
  refine h.goto (.inl hplace) fun poll tracker hchecking => ?_
  rw [hchecking] at hplace
  cases hplace

theorem Inv.release (h : w.Inv) (hheld : (w.runners runner).held = some trackerId)
    (hplace : place.held = none) : (w.release runner trackerId place).Inv := by
  have hfree : (w.goto runner place).Inv := h.goto_free hplace
  refine ⟨hfree.exclusive, fun p id hp => ?_, hfree.loaded, hfree.documents⟩
  have hne : id ≠ trackerId := by
    rintro rfl
    have hp' := hp
    change ((w.goto runner place).runners p).held = some id at hp'
    rw [runners_goto] at hp'
    split_ifs at hp' with hrunner
    · rw [hplace] at hp'
      cases hp'
    · exact hrunner (h.exclusive p runner id hp' hheld)
  change Function.update w.locks trackerId false id = true
  rw [Function.update_of_ne hne]
  exact hfree.locked p id hp

/-- The lock of a tracker that no process holds is taken. -/
theorem Inv.lock (h : w.Inv) (hpoll : w.runners runner = .polling poll) :
    (w.lock runner poll).Inv := by
  unfold TrackerWorld.lock
  split_ifs with hentered
  · have hunlocked : w.locks poll.trackerId = false := by
      simp only [Bool.and_eq_true, Bool.not_eq_true'] at hentered
      exact hentered.2
    have hnone (p : ℕ) : (w.runners p).held ≠ some poll.trackerId := fun hp => by
      have hlocked := h.locked p poll.trackerId hp
      rw [hunlocked] at hlocked
      cases hlocked
    have hheld (p : ℕ) (trackerId : Str)
        (hp : ((w.goto runner (.locked poll)).runners p).held = some trackerId) :
        p = runner ∧ trackerId = poll.trackerId ∨
          (w.runners p).held = some trackerId ∧ trackerId ≠ poll.trackerId := by
      rw [runners_goto] at hp
      split_ifs at hp with hrunner
      · exact .inl ⟨hrunner, (Option.some.inj hp).symm⟩
      · exact .inr ⟨hp, fun heq => hnone p (heq ▸ hp)⟩
    exact {
      exclusive := fun p q trackerId hp hq => by
        rcases hheld p trackerId hp with ⟨rfl, heq⟩ | ⟨hp, hne⟩
        · rcases hheld q trackerId hq with ⟨rfl, -⟩ | ⟨-, hne⟩
          · rfl
          · exact absurd heq hne
        · rcases hheld q trackerId hq with ⟨-, heq⟩ | ⟨hq, -⟩
          · exact absurd heq hne
          · exact h.exclusive p q trackerId hp hq
      locked := fun p trackerId hp => by
        change Function.update w.locks poll.trackerId true trackerId = true
        rcases hheld p trackerId hp with ⟨-, rfl⟩ | ⟨hp, hne⟩
        · exact Function.update_self _ _ _
        · rw [Function.update_of_ne hne]
          exact h.locked p trackerId hp
      loaded := fun p poll' tracker hp => by
        change (w.goto runner (.locked poll)).runners p = _ at hp
        rw [runners_goto] at hp
        split_ifs at hp
        exact h.loaded p poll' tracker hp
      documents := h.documents }
  · exact h.goto_free rfl

/-- A document that no process has loaded is written. -/
theorem Inv.save (h : w.Inv) {tracker : Tracker}
    (hfree : ∀ p, (w.runners p).held ≠ some tracker.id)
    (hhistory : FaithfulHistory tracker.history) : (w.save tracker).Inv where
  exclusive := h.exclusive
  locked := h.locked
  loaded p poll other hp := by
    have hne : poll.trackerId ≠ tracker.id := by
      intro heq
      refine hfree p ?_
      change w.runners p = .checking poll other at hp
      rw [hp, ← heq]
      rfl
    change Function.update w.files tracker.id (some tracker) poll.trackerId = some other
    rw [Function.update_of_ne hne]
    exact h.loaded p poll other hp
  documents id other hfile := by
    change Function.update w.files tracker.id (some tracker) id = some other at hfile
    rw [Function.update_apply] at hfile
    split_ifs at hfile with heq
    · obtain rfl := Option.some.inj hfile
      exact ⟨heq.symm, hhistory⟩
    · exact h.documents id other hfile

theorem Inv.load (h : w.Inv) (hlocked : w.runners runner = .locked poll) (readable : Bool) :
    (w.load runner poll readable).Inv := by
  have hheld : (w.runners runner).held = some poll.trackerId := hlocked ▸ rfl
  unfold TrackerWorld.load
  cases hfile : w.files poll.trackerId with
  | none => exact h.release hheld rfl
  | some tracker =>
    simp only
    split_ifs
    · refine h.goto (.inr hheld.symm) fun poll' tracker' heq => ?_
      obtain ⟨rfl, rfl⟩ := Runner.checking.inj heq
      exact hfile
    · exact h.release hheld rfl

/-- **A round** that succeeds writes the document that its process has loaded. -/
theorem Inv.checked (h : w.Inv) {tracker : Tracker}
    (hchecking : w.runners runner = .checking poll tracker) (saved : Bool) :
    (w.check L W runner poll tracker saved).Inv := by
  have hheld : (w.runners runner).held = some poll.trackerId := hchecking ▸ rfl
  obtain ⟨hid, hhistory⟩ := h.documents _ _ (h.loaded runner poll tracker hchecking)
  unfold TrackerWorld.check
  cases hcheck : checkTracker L W tracker with
  | ok result =>
    simp only
    split_ifs
    · have hreleased := h.release hheld poll.held_next
      refine hreleased.save (fun p hp => ?_) (hhistory.append hcheck)
      -- no other process has the lock that is released
      change ((w.goto runner poll.next).runners p).held = some tracker.id at hp
      rw [runners_goto, hid] at hp
      split_ifs at hp with hrunner
      · rw [poll.held_next] at hp
        cases hp
      · exact hrunner (h.exclusive p runner poll.trackerId hp hheld)
    · exact h.release hheld rfl
  | error e =>
    cases e with
    | trackerError message =>
      refine h.release hheld ?_
      split_ifs
      · exact poll.held_next
      · rfl
    | httpError => exact h.release hheld rfl
    | raised => exact h.release hheld rfl

theorem Inv.create (h : w.Inv) (draft : Tracker) (saved : Bool) :
    (w.create L W draft saved).Inv := by
  unfold TrackerWorld.create
  cases hcheck : checkTracker L W { draft with history := [] } with
  | ok baseline =>
    simp only
    split_ifs with hsaved
    · simp only [Bool.and_eq_true, Bool.not_eq_true'] at hsaved
      refine h.save (fun p hp => ?_) (.baseline hcheck)
      have hlocked := h.locked p _ hp
      rw [hsaved.1.2] at hlocked
      cases hlocked
    · exact h
  | error => exact h

/-- **Every action keeps the invariant.** -/
theorem Inv.exec (h : w.Inv) (action : TrackerAction) : (action.exec L w).Inv := by
  cases action with
  | run runner trackerId watch maxChecks =>
    rw [TrackerAction.exec]
    split
    · exact h.goto_free rfl
    · exact h
  | step runner W readable saved =>
    rw [TrackerAction.exec]
    split
    · rename_i hplace
      exact h.lock hplace
    · rename_i hplace
      exact h.load hplace readable
    · rename_i hplace
      exact h.checked hplace saved
    · exact h
  | interrupt runner =>
    rw [TrackerAction.exec]
    split
    · exact h
    · cases hheld : (w.runners runner).held with
      | none => exact h.goto_free rfl
      | some trackerId => exact h.release hheld rfl
  | kill runner =>
    rw [TrackerAction.exec]
    split
    · exact h.goto_free rfl
    · rename_i hheld
      exact h.goto (.inr hheld.symm) fun _ _ heq => absurd heq Runner.noConfusion
  | create W draft saved => exact h.create draft saved
  | clear runner =>
    rw [TrackerAction.exec]
    split
    · rename_i hplace
      exact h.release (hplace ▸ rfl) rfl
    · exact h

theorem inv_after (L : Libraries) (actions : List TrackerAction) : (after L actions).Inv := by
  unfold after
  induction actions using List.reverseRecOn with
  | nil => exact inv_empty
  | append_singleton actions action ih =>
    rw [List.foldl_append]
    exact ih.exec action

/-- What an action writes: nothing, the result of a successful check after the history of its
tracker, or a new tracker with its baseline. -/
inductive Wrote (L : Libraries) (w : TrackerWorld) (action : TrackerAction) : Prop
  | nothing (hfiles : (action.exec L w).files = w.files)
  | appended (runner : ℕ) (W : CheckWorld) (readable : Bool) (tracker : Tracker) (result : Check)
    (haction : action = .step runner W readable true)
    (hfile : w.files tracker.id = some tracker)
    (hcheck : checkTracker L W tracker = .ok result)
    (hfiles : (action.exec L w).files =
      Function.update w.files tracker.id (some (tracker.append result)))
  | created (W : CheckWorld) (draft : Tracker) (baseline : Check)
    (haction : action = .create W draft true)
    (hfile : w.files draft.id = none)
    (hcheck : checkTracker L W { draft with history := [] } = .ok baseline)
    (hfiles : (action.exec L w).files =
      Function.update w.files draft.id (some { draft with history := [baseline] }))

theorem files_lock : (w.lock runner poll).files = w.files := by
  unfold TrackerWorld.lock
  split_ifs <;> rfl

theorem files_load (readable : Bool) : (w.load runner poll readable).files = w.files := by
  unfold TrackerWorld.load
  split
  · rfl
  · split_ifs <;> rfl

/-- **A check that fails** writes nothing. -/
theorem files_check_failed {tracker : Tracker}
    (hfailed : ∀ result, checkTracker L W tracker ≠ .ok result) (saved : Bool) :
    (w.check L W runner poll tracker saved).files = w.files := by
  unfold TrackerWorld.check
  cases hcheck : checkTracker L W tracker with
  | ok result => exact absurd hcheck (hfailed result)
  | error e => cases e <;> rfl

theorem Inv.wrote (h : w.Inv) (action : TrackerAction) : Wrote L w action := by
  cases action with
  | run runner trackerId watch maxChecks =>
    refine .nothing ?_
    rw [TrackerAction.exec]
    split <;> rfl
  | step runner W readable saved =>
    cases hplace : w.runners runner with
    | checking poll tracker =>
      have hexec : (TrackerAction.step runner W readable saved).exec L w =
          w.check L W runner poll tracker saved := by rw [TrackerAction.exec, hplace]
      by_cases hfailed : ∀ result, checkTracker L W tracker ≠ .ok result
      · exact .nothing (hexec ▸ files_check_failed hfailed saved)
      · obtain ⟨result, hresult⟩ := not_forall.mp hfailed
        have hcheck := not_not.mp hresult
        have hfile := h.loaded runner poll tracker hplace
        obtain ⟨hid, -⟩ := h.documents _ _ hfile
        cases saved with
        | false => exact .nothing (by rw [hexec, TrackerWorld.check, hcheck]; rfl)
        | true =>
          refine .appended runner W readable tracker result rfl (hid.symm ▸ hfile) hcheck ?_
          rw [hexec, TrackerWorld.check, hcheck]
          rfl
    | polling poll => exact .nothing (by rw [TrackerAction.exec, hplace]; exact files_lock)
    | locked poll => exact .nothing (by rw [TrackerAction.exec, hplace]; exact files_load readable)
    | idle => exact .nothing (by rw [TrackerAction.exec, hplace])
    | dead trackerId => exact .nothing (by rw [TrackerAction.exec, hplace])
  | interrupt runner =>
    refine .nothing ?_
    rw [TrackerAction.exec]
    split
    · rfl
    · split <;> rfl
  | kill runner =>
    refine .nothing ?_
    rw [TrackerAction.exec]
    split <;> rfl
  | create W draft saved =>
    cases hcheck : checkTracker L W { draft with history := [] } with
    | error => exact .nothing (by rw [TrackerAction.exec, TrackerWorld.create, hcheck])
    | ok baseline =>
      by_cases hsaved : (saved && isTrackerId draft.id && !w.locks draft.id &&
          (w.files draft.id).isNone) = true
      · have hfiles : ((TrackerAction.create W draft saved).exec L w).files =
            Function.update w.files draft.id (some { draft with history := [baseline] }) := by
          simp only [TrackerAction.exec, TrackerWorld.create, hcheck, if_pos hsaved]
          rfl
        simp only [Bool.and_eq_true, Option.isNone_iff_eq_none] at hsaved
        obtain rfl : saved = true := hsaved.1.1.1
        exact .created W draft baseline rfl hsaved.2 hcheck hfiles
      · refine .nothing ?_
        simp only [TrackerAction.exec, TrackerWorld.create, hcheck, if_neg hsaved]
  | clear runner =>
    refine .nothing ?_
    rw [TrackerAction.exec]
    split <;> rfl

end TrackerWorld

/-- **The history of a tracker is a faithful change log**: every successful check reports what
became of the last snapshot of its tracker, and after any actions every document holds at most 100
checks, each following from the one before it. A check that fails writes nothing, and no action
writes anything but the result of a successful check. -/
theorem tracker_history (L : Libraries) :
    (∀ W tracker check, checkTracker L W tracker = .ok check →
      FaithfulCheck tracker.history.getLast? check) ∧
    (∀ actions trackerId tracker,
      (TrackerWorld.after L actions).files trackerId = some tracker →
        FaithfulHistory tracker.history) ∧
    (∀ actions action, TrackerWorld.Wrote L (TrackerWorld.after L actions) action) ∧
    ∀ (w : TrackerWorld) runner poll tracker W readable saved,
      w.runners runner = .checking poll tracker →
        (∀ result, checkTracker L W tracker ≠ .ok result) →
          ((TrackerAction.step runner W readable saved).exec L w).files = w.files := by
  refine ⟨fun W tracker check h => checkTracker_faithful h, fun actions id tracker hfile => ?_,
    fun actions action => (TrackerWorld.inv_after L actions).wrote action,
    fun w runner poll tracker W readable saved hplace hfailed => ?_⟩
  · exact ((TrackerWorld.inv_after L actions).documents id tracker hfile).2
  · rw [TrackerAction.exec, hplace]
    exact TrackerWorld.files_check_failed hfailed saved

/-! ### A check of a page -/

/-- A job of a page of careers. -/
def careersJob (url title : String) : JobObservation where
  url := url.toList
  title := title.toList
  company := "Acme".toList
  status := .open
  facts := ⟨[("pay".toList, none)], List.pairwise_singleton _ _⟩

/-- A page with at most two jobs. -/
def careersPage (first second : JobObservation) : CheckWorld where
  environ _ := "k".toList
  fetchPage _ := .ok ([], [first.url, second.url])
  askModel _ := .ok ⟨true, [first, second], by simp⟩
  now := "2026-02-01T00:00:00+00:00".toList

def careersTracker : Tracker where
  id := "00000000000000000000000000000001".toList
  url := "https://acme.example/careers".toList
  scope := .company
  keyEnv := "K".toList
  fields := ["pay".toList]
  fields_unique := List.nodup_singleton _
  history := []

/-- The tracker is created, and checked when a job of the page is renamed and the other replaced. -/
def careersActions : List TrackerAction :=
  let later := careersPage (careersJob "https://acme.example/1" "Data Intern")
    (careersJob "https://acme.example/3" "Analyst")
  [.create (careersPage (careersJob "https://acme.example/2" "Designer")
      (careersJob "https://acme.example/1" "Intern")) careersTracker true,
    .run 7 careersTracker.id false 0, .step 7 later true true, .step 7 later true true,
    .step 7 later true true]

example : ((TrackerWorld.after .ascii careersActions).files careersTracker.id).map
    (fun tracker => tracker.history.map fun check => check.changes.map fun change =>
      (change.kind, change.url)) =
    some [[], [(.updated, "https://acme.example/1".toList),
      (.missing, "https://acme.example/2".toList), (.added, "https://acme.example/3".toList)]] := by
  decide +kernel

end JobPing
