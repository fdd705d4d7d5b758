import JobPing.PageExtraction
import JobPing.TrackerMoves

/-!
# The files refine the store

Each step of a process of `TrackerFiles` is one of the store of trackers, or none, and a power
failure kills the processes one by one (`Refines.step`). What has been read to the end is the whole
document that the tracker had at some point (`tracker_files_refine`).
-/

namespace JobPing

namespace TrackerFiles

variable {L : Libraries} {docs : TrackerDocuments} {s : TrackerFiles}
  {actions more : List TrackerAction} {files files' : Directory Str UInt8}
  {process : TrackerProcess} {p : ℕ} {place runner : Runner} {trackerId : Str}
  {poll : Polling} {tracker : Tracker}

/-! ## Locks -/

/-- **A lock file is made**: no other process has the tracker. -/
theorem Refines.lock (h : Refines L docs s actions) (hid : isTrackerId trackerId = true)
    (hcreate : s.files.create (lockName trackerId) = some files)
    (hholds : process.holds = some trackerId)
    (hturns : (TrackerWorld.after L actions).Turns (TrackerWorld.after L (actions ++ more)) p place)
    (hnew : ∀ trackerId, process.new = some trackerId → (s.processes p).new = some trackerId)
    (hfits : Fits L docs files (actions ++ more) place process) :
    Refines L docs (s.proceed p files process) (actions ++ more) := by
  obtain ⟨hnone, hentries, -⟩ := Directory.create_spec hcreate
  have hfree (q : ℕ) (hq : (s.processes q).holds = some trackerId) : False :=
    (h.locks q trackerId hq).2 hnone
  have hworks : Directory.Works (NameOf trackerId) s.files files :=
    Directory.works_create hcreate (name_of_append hid _)
  refine h.turn hworks (fun q hq other hother name hname => ?_) (fun other hother => ?_)
    (fun other _ => ?_) hturns hnew hfits
  · intro hname'
    have hsame : trackerId = other := hname'.symm.trans hname
    exact hfree q (hsame ▸ hother)
  · obtain rfl := Option.some.inj (hholds.symm.trans hother)
    refine ⟨hid, ?_, fun q _ => hfree q⟩
    rw [hentries, Function.update_self]
    exact Option.some_ne_none _
  · rw [hentries, Function.update_of_ne (document_ne_lock _ _)]

/-- What the store has locked, its lock file is there for. -/
theorem Refines.unlocked (h : Refines L docs s actions)
    (hnone : s.files.entries (lockName trackerId) = none) :
    (TrackerWorld.after L actions).locks trackerId = false := by
  rw [← Bool.not_eq_true]
  intro hlock
  obtain ⟨q, hq⟩ := TrackerWorld.held_after actions trackerId hlock
  rcases (h.fits q).held with hheld | hheld
  · rw [hheld] at hq
    cases hq
  · exact (h.locks q trackerId (hheld ▸ hq)).2 hnone

theorem Refines.locking (h : Refines L docs s actions) (W : CheckWorld)
    (hprocess : s.processes p = .locking poll) :
    ∃ more, Refines L docs (s.lock p poll.trackerId (.opening poll)) (actions ++ more) := by
  have hrunner : (TrackerWorld.after L actions).runners p = .polling poll := h.fits_at hprocess
  have hidle : ∃ more, Refines L docs (s.proceed p s.files .idle) (actions ++ more) :=
    h.fail (by rw [hprocess]; simp) (.inl rfl) rfl rfl
  unfold TrackerFiles.lock
  split_ifs with hid
  · split
    next files hcreate =>
      have hfree := h.unlocked (Directory.create_spec hcreate).1
      have hturns : (TrackerWorld.after L actions).Turns
          (TrackerAction.exec L (TrackerWorld.after L actions) (.step p W true true)) p
          (.locked poll) := by
        rw [TrackerAction.exec, hrunner]
        simp only [TrackerWorld.lock, hid, hfree, Bool.not_false, Bool.and_self, if_true]
        exact ⟨Function.update_self _ _ _, fun _ hq => Function.update_of_ne hq _ _, rfl⟩
      refine ⟨[.step p W true true], h.lock hid hcreate rfl (turns_one hturns)
        (fun other hother => ?_) rfl⟩
      cases hother
    · exact hidle
  · exact hidle

theorem Refines.creating (h : Refines L docs s actions)
    (hprocess : s.processes p = .creating tracker) :
    ∃ more, Refines L docs (s.lock p tracker.id (.saving none tracker .opening))
      (actions ++ more) := by
  have hfits := h.fits_at hprocess
  have hidle : ∃ more, Refines L docs (s.proceed p s.files .idle) (actions ++ more) :=
    h.fail (by rw [hprocess]; simp) (.inl rfl) rfl rfl
  unfold TrackerFiles.lock
  split_ifs with hid
  · split
    next files hcreate =>
      refine ⟨[], h.lock hid hcreate rfl (turns_none hfits.1) (fun other hother => ?_) ?_⟩
      · rw [hprocess]
        exact hother
      · exact ⟨⟨rfl, hfits.2⟩, trivial⟩
    · exact hidle
  · exact hidle

/-! ## Documents -/

/-- Who has the tracker finds its document as the store has it. -/
theorem Refines.read (h : Refines L docs s actions) {file : ℕ}
    (hid : isTrackerId trackerId = true)
    (hentry : s.files.entries (documentName trackerId) = some file) :
    ∃ tracker, (TrackerWorld.after L actions).files trackerId = some tracker ∧
      s.files.synced file = true ∧ s.files.contents file = docs.dump tracker := by
  have hstored := h.documents trackerId hid
  cases hfile : (TrackerWorld.after L actions).files trackerId with
  | none =>
    rw [hfile] at hstored
    exact absurd (hentry.symm.trans hstored) (Option.some_ne_none _)
  | some tracker =>
    rw [hfile] at hstored
    obtain ⟨file', hfile', hsynced, hcontents⟩ := hstored
    obtain rfl := Option.some.inj (hentry.symm.trans hfile')
    exact ⟨tracker, rfl, hsynced, hcontents⟩

/-- What was read to the end is the whole text. -/
theorem eq_of_read {text contents : List UInt8} {n : ℕ} (hread : text <+: contents)
    (hend : (contents.drop text.length).take (n + 1) = []) : text = contents := by
  obtain ⟨rest, rfl⟩ := hread
  rw [List.drop_left, List.take_eq_nil_iff] at hend
  rw [hend.resolve_left (Nat.succ_ne_zero n), List.append_nil]

theorem append_read {text contents : List UInt8} (n : ℕ) (hread : text <+: contents) :
    text ++ (contents.drop text.length).take (n + 1) <+: contents := by
  obtain ⟨rest, rfl⟩ := hread
  rw [List.drop_left]
  exact (List.prefix_append_right_inj text).mpr (List.take_prefix _ _)

theorem Refines.opening (h : Refines L docs s actions) (hprocess : s.processes p = .opening poll) :
    ∃ more, Refines L docs (s.proceed p s.files
      (match s.files.entries (documentName poll.trackerId) with
      | some file => .reading poll file []
      | none => .releasing poll.trackerId none)) (actions ++ more) := by
  have hfits := h.fits_at hprocess
  split
  next file hentry =>
    have hid := (h.locks p poll.trackerId (by rw [hprocess]; rfl)).1
    obtain ⟨tracker, -, hsynced, -⟩ := h.read hid hentry
    refine h.go (.inr (by rw [hprocess]; rfl)) hfits (fun other hother => ?_)
      ⟨rfl, hentry, hsynced, List.nil_prefix⟩
    cases hother
  · exact h.fail (by rw [hprocess]; simp) (.inr (by rw [hprocess]; rfl)) rfl rfl

theorem turns_load {w : TrackerWorld} (h : w.Inv) (W : CheckWorld)
    (hrunner : w.runners p = .locked poll) (hfile : w.files poll.trackerId = some tracker) :
    w.Turns (TrackerAction.exec L w (.step p W true true)) p (.checking poll tracker) := by
  obtain ⟨hid, hhistory⟩ := h.documents _ _ hfile
  rw [TrackerAction.exec, hrunner]
  simp only [TrackerWorld.load, hfile, hhistory.bound, hid, decide_true, Bool.and_self, if_true]
  exact TrackerWorld.turns_goto

theorem Refines.reading (h : Refines L docs s actions) (W : CheckWorld) {file n : ℕ}
    {text : List UInt8} (hprocess : s.processes p = .reading poll file text) :
    ∃ more, Refines L docs
      (if ((s.files.contents file).drop text.length).take (n + 1) = [] then
        s.loaded docs p poll text
      else s.proceed p s.files (.reading poll file
        (text ++ ((s.files.contents file).drop text.length).take (n + 1)))) (actions ++ more) := by
  have hfits := h.fits_at hprocess
  obtain ⟨hrunner, hentry, hsynced, hread⟩ := hfits
  have hfail : ∃ more, Refines L docs
      (s.proceed p s.files (.releasing poll.trackerId none)) (actions ++ more) :=
    h.fail (by rw [hprocess]; simp) (.inr (by rw [hprocess]; rfl)) rfl rfl
  split_ifs with hend
  · have hid := (h.locks p poll.trackerId (by rw [hprocess]; rfl)).1
    obtain ⟨tracker, hfile, -, hcontents⟩ := h.read hid hentry
    unfold loaded
    split
    next tracker' hvalidate =>
      rw [eq_of_read hread hend, hcontents] at hvalidate
      obtain rfl := docs.validate_dump _ _ hvalidate
      split_ifs with hsame
      · refine ⟨[.step p W true true], h.stay (.inr (by rw [hprocess]; rfl))
          (turns_one (turns_load (TrackerWorld.inv_after L actions) W hrunner hfile)) ?_ rfl⟩
        intro other hother
        cases hother
      · exact hfail
    · exact hfail
  · refine h.go (.inr (by rw [hprocess]; rfl)) hrunner (fun other hother => ?_)
      ⟨rfl, hentry, hsynced, append_read n hread⟩
    cases hother

/-! ## Checks -/

theorem Refines.checked (h : Refines L docs s actions) (W : CheckWorld)
    (hprocess : s.processes p = .checking poll tracker) :
    ∃ more, Refines L docs (s.checked L W p poll tracker) (actions ++ more) := by
  have hrunner := h.fits_at hprocess
  unfold TrackerFiles.checked
  cases hcheck : checkTracker L W tracker with
  | ok result =>
    have hinv := TrackerWorld.inv_after L actions
    have hid : tracker.id = poll.trackerId :=
      (hinv.documents _ _ (hinv.loaded p poll tracker hrunner)).1
    refine h.go (.inr (by rw [hprocess]; rfl)) hrunner (fun other hother => ?_)
      ⟨⟨tracker, W, result, rfl, hcheck, rfl, hid⟩, trivial⟩
    cases hother
  | error e =>
    cases e with
    | trackerError message =>
      have hturns : (TrackerWorld.after L actions).Turns
          (TrackerAction.exec L (TrackerWorld.after L actions) (.step p W true true)) p
          (if poll.watch then poll.next else .idle) := by
        rw [TrackerAction.exec, hrunner]
        simp only [TrackerWorld.check, hcheck]
        exact TrackerWorld.turns_release
      refine ⟨[.step p W true true], h.stay (.inr (by rw [hprocess]; rfl)) (turns_one hturns)
        (fun other hother => ?_) ?_⟩
      · cases hother
      · change (if poll.watch then poll.next else Runner.idle) =
          .resumed (if poll.watch then poll.after else none)
        split_ifs
        · exact poll.next_eq
        · rfl
    | httpError => exact h.fail (by rw [hprocess]; simp) (.inr (by rw [hprocess]; rfl)) rfl rfl
    | raised e => exact h.fail (by rw [hprocess]; simp) (.inr (by rw [hprocess]; rfl)) rfl rfl

/-! ## Saving -/

/-- **Work under the temporary names** of a tracker that the process has. -/
theorem Refines.work (h : Refines L docs s actions)
    (hheld : (s.processes p).holds = some trackerId)
    (hworks : Directory.Works (NameOf trackerId) s.files files)
    (hentries : ∀ name, (∀ uuid, name ≠ temporaryName trackerId uuid) →
      files.entries name = s.files.entries name)
    (hholds : process.holds = some trackerId)
    (hrunner : (TrackerWorld.after L actions).runners p = runner)
    (hnew : ∀ trackerId, process.new = some trackerId → (s.processes p).new = some trackerId)
    (hfits : Fits L docs files actions runner process) :
    ∃ more, Refines L docs (s.proceed p files process) (actions ++ more) := by
  refine ⟨[], h.turn hworks (h.alone hheld)
    (h.holds (.inr (hholds.trans hheld.symm)) fun other => ?_) (fun other _ => ?_)
    (turns_none hrunner) hnew ?_⟩
  · exact hentries _ fun uuid => lock_ne_temporary _ _ _
  · exact hentries _ fun uuid => document_ne_temporary _ _ _
  · rw [List.append_nil]
    exact hfits

theorem Refines.saver (h : Refines L docs s actions) {poll : Option Polling} {phase : SavePhase}
    (hprocess : s.processes p = .saving poll tracker phase) :
    (s.processes p).holds = some tracker.id := by
  rw [hprocess]
  exact (h.fits_at hprocess).1.holds

/-- A new tracker stays the new one while it is saved. -/
theorem new_of_saving {poll : Option Polling} {phase phase' : SavePhase}
    (hprocess : s.processes p = .saving poll tracker phase) (other : Str)
    (hother : (TrackerProcess.saving poll tracker phase').new = some other) :
    (s.processes p).new = some other := by
  rw [hprocess]
  cases poll with
  | none => exact hother
  | some poll => cases hother

theorem Refines.save_opening (h : Refines L docs s actions) {poll : Option Polling} (uuid : Str)
    (n : ℕ) (hprocess : s.processes p = .saving poll tracker .opening) :
    ∃ more, Refines L docs (s.save docs p uuid n poll tracker .opening) (actions ++ more) := by
  have hfits := h.fits_at hprocess
  have hheld := h.saver hprocess
  have hid := (h.locks p tracker.id hheld).1
  unfold TrackerFiles.save
  simp only
  split
  next files hcreate =>
    obtain ⟨-, hentries, -, hcontents, hsynced⟩ := Directory.create_spec hcreate
    refine h.work hheld (Directory.works_create hcreate (name_of_append hid _))
      (fun name hname => ?_) hfits.1.holds rfl (new_of_saving hprocess)
      ⟨hfits.1, ⟨uuid, rfl⟩, ?_, ?_, ?_⟩
    · rw [hentries, Function.update_of_ne (hname uuid)]
    · rw [hentries, Function.update_self]
    · rw [hsynced, Function.update_self]
    · rw [hcontents, Function.update_self, List.nil_append]
  · exact h.fail (by rw [hprocess]; simp) (.inr (by rw [hheld]; rfl)) rfl ⟨rfl, uuid, rfl⟩

theorem Refines.save_writing (h : Refines L docs s actions) {poll : Option Polling} (uuid : Str)
    (n : ℕ) {temporary : Str} {file : ℕ} {rest : List UInt8}
    (hprocess : s.processes p = .saving poll tracker (.writing temporary file rest)) :
    ∃ more, Refines L docs (s.save docs p uuid n poll tracker (.writing temporary file rest))
      (actions ++ more) := by
  have hfits := h.fits_at hprocess
  have hheld := h.saver hprocess
  have hid := (h.locks p tracker.id hheld).1
  obtain ⟨hsaves, ⟨uuid', rfl⟩, hentry, hopen, hcontents⟩ := hfits
  have hname : NameOf tracker.id (temporaryName tracker.id uuid') := name_of_append hid _
  rw [TrackerFiles.save]
  split_ifs with hrest
  · refine h.work hheld (Directory.works_sync hentry hname) (fun _ _ => rfl) hsaves.holds
      rfl (new_of_saving hprocess)
      ⟨hsaves, ⟨uuid', rfl⟩, file, hentry, Function.update_self _ _ _, ?_⟩
    rw [hrest, List.append_nil] at hcontents
    exact hcontents
  · refine h.work hheld (Directory.works_append hentry hname hopen) (fun _ _ => rfl) hsaves.holds
      rfl (new_of_saving hprocess) ⟨hsaves, ⟨uuid', rfl⟩, hentry, Function.update_self _ _ _, ?_⟩
    change Function.update s.files.contents file _ file ++ _ = _
    rw [Function.update_self, List.append_assoc, List.take_append_drop, hcontents]

/-- **The document is replaced**, and saved in the store at once. -/
theorem Refines.publish (h : Refines L docs s actions) {temporary : Str} {after : Option Polling}
    {action : TrackerAction} (hid : isTrackerId tracker.id = true)
    (hheld : (s.processes p).holds = some tracker.id)
    (htemporary : ∃ uuid, temporary = temporaryName tracker.id uuid) {file : ℕ}
    (hentry : s.files.entries temporary = some file) (hsynced : s.files.synced file = true)
    (hcontents : s.files.contents file = docs.dump tracker)
    (hrename : s.files.rename temporary (documentName tracker.id) = some files)
    (hrunner : (action.exec L (TrackerWorld.after L actions)).runners p = .resumed after)
    (hothers : ∀ q, q ≠ p → (action.exec L (TrackerWorld.after L actions)).runners q =
      (TrackerWorld.after L actions).runners q)
    (hfiles : (action.exec L (TrackerWorld.after L actions)).files =
      Function.update (TrackerWorld.after L actions).files tracker.id (some tracker))
    (hdrawn : tracker.id ∈ s.drawn)
    (hfresh : ∀ q, q ≠ p → (s.processes q).new ≠ some tracker.id) :
    Refines L docs (s.proceed p files (.discarding tracker.id temporary after))
      (actions ++ [action]) := by
  obtain ⟨uuid, rfl⟩ := htemporary
  obtain ⟨file', hfile', hentries, -, hsame, hsync⟩ := Directory.rename_spec hrename
  obtain rfl := Option.some.inj (hentry.symm.trans hfile')
  have hdocument : NameOf tracker.id (documentName tracker.id) := name_of_append hid _
  have hworks : Directory.Works (NameOf tracker.id) s.files files :=
    Directory.works_rename hrename (name_of_append hid _) hdocument
  have hother {name : Str} (hname : name ≠ documentName tracker.id)
      (hname' : name ≠ temporaryName tracker.id uuid) :
      files.entries name = s.files.entries name := by
    rw [hentries, Function.update_of_ne hname, Function.update_of_ne hname']
  refine h.move (List.Subset.refl _) hworks (h.alone hheld)
    (h.holds (.inr hheld.symm) fun other => ?_) ?_ (fun other hother' => ?_)
    (fun other document hsome => ?_) (fun q other hq => ?_) (fun other hnew => ?_) ?_
  · exact hother (document_ne_lock _ _).symm (lock_ne_temporary _ _ _)
  · rw [TrackerWorld.after_concat]
    exact hothers
  · rw [TrackerWorld.after_concat, hfiles]
    by_cases hne : other = tracker.id
    · subst hne
      rw [Function.update_self]
      refine ⟨file, ?_, hsync ▸ hsynced, hsame ▸ hcontents⟩
      rw [hentries, Function.update_self]
    · rw [Function.update_of_ne hne]
      refine (h.documents other hother').works hworks (hother (fun hsame => hne ?_)
        (document_ne_temporary _ _ _))
      have hname : NameOf other (documentName other) := name_of_append hother' _
      rw [hsame] at hname
      exact hname.symm.trans hdocument
  · rw [TrackerWorld.after_concat, hfiles, Function.update_apply] at hsome
    split_ifs at hsome with heq
    · exact heq ▸ hdrawn
    · exact h.drawn other document hsome
  · rw [TrackerWorld.after_concat, hfiles]
    by_cases hqp : q = p
    · subst hqp
      rw [show (s.proceed q files (.discarding tracker.id _ after)).processes q = _ from
        Function.update_self _ _ _] at hq
      cases hq
    · have hq' : (s.processes q).new = some other :=
        (congrArg TrackerProcess.new (Function.update_of_ne hqp _ _)).symm.trans hq
      have hne : other ≠ tracker.id := by
        rintro rfl
        exact hfresh q hqp hq'
      rw [Function.update_of_ne hne]
      exact (h.fresh q other hq').2
  · cases hnew
  · rw [TrackerWorld.after_concat]
    exact ⟨hrunner, uuid, rfl⟩

theorem Refines.save_replacing (h : Refines L docs s actions) {poll : Option Polling} (uuid : Str)
    (n : ℕ) {temporary : Str}
    (hprocess : s.processes p = .saving poll tracker (.replacing temporary)) :
    ∃ more, Refines L docs (s.save docs p uuid n poll tracker (.replacing temporary))
      (actions ++ more) := by
  have hfits := h.fits_at hprocess
  have hheld := h.saver hprocess
  have hid := (h.locks p tracker.id hheld).1
  obtain ⟨hsaves, htemporary, file, hentry, hsynced, hcontents⟩ := hfits
  rw [TrackerFiles.save]
  split
  next files hrename =>
    cases poll with
    | none =>
      obtain ⟨hidle, W, draft, baseline, hcheck, rfl⟩ := hsaves
      obtain ⟨hdrawn, hnone⟩ := h.fresh p draft.id (by rw [hprocess]; rfl)
      have hlocks : (TrackerWorld.after L actions).locks draft.id = false := by
        rw [← Bool.not_eq_true]
        intro hlock
        obtain ⟨q, hq⟩ := TrackerWorld.held_after actions draft.id hlock
        -- what is locked in the store would be held by the process itself, which is idle there
        rcases (h.fits q).held with hfree | hsame
        · rw [hfree] at hq
          cases hq
        · obtain rfl := h.exclusive q p draft.id (hsame ▸ hq) hheld
          rw [hidle] at hq
          cases hq
      have hexec : TrackerAction.exec L (TrackerWorld.after L actions) (.create W draft true) =
          (TrackerWorld.after L actions).save { draft with history := [baseline] } := by
        simp only [TrackerAction.exec, TrackerWorld.create, hcheck]
        exact if_pos (by simpa [hlocks, hnone] using hid)
      refine ⟨[.create W draft true], h.publish hid hheld htemporary hentry hsynced hcontents
        hrename ?_ ?_ ?_ hdrawn fun q hq hnew => ?_⟩
      · rw [hexec]
        exact hidle
      · rw [hexec]
        exact fun _ _ => rfl
      · rw [hexec]
        rfl
      · exact hq (h.fresh_once q p draft.id hnew (by rw [hprocess]; rfl))
    | some poll =>
      obtain ⟨before, W, result, hrunner, hcheck, rfl, hpoll⟩ := hsaves
      have hfile := (TrackerWorld.inv_after L actions).loaded p poll before hrunner
      have hpoll' : before.id = poll.trackerId := hpoll
      have hexec : TrackerAction.exec L (TrackerWorld.after L actions) (.step p W true true) =
          ((TrackerWorld.after L actions).save (before.append result)).release p
            poll.trackerId poll.next := by
        simp only [TrackerAction.exec, hrunner, TrackerWorld.check, hcheck, if_true]
      refine ⟨[.step p W true true], h.publish hid hheld htemporary hentry hsynced hcontents
        hrename ?_ ?_ ?_ (h.drawn _ before (hpoll ▸ hfile)) fun q hq hnew => ?_⟩
      · rw [hexec, poll.next_eq]
        exact Function.update_self _ _ _
      · rw [hexec]
        exact fun q hq => Function.update_of_ne hq _ _
      · rw [hexec]
        rfl
      · have hnone := (h.fresh q _ hnew).2
        rw [hpoll, hfile] at hnone
        cases hnone
  · exact h.fail (by rw [hprocess]; simp) (.inr (by rw [hheld]; rfl)) rfl ⟨rfl, htemporary⟩

theorem Refines.discarding (h : Refines L docs s actions) {temporary : Str} {after : Option Polling}
    (hprocess : s.processes p = .discarding trackerId temporary after) :
    ∃ more, Refines L docs (s.proceed p (s.files.unlink temporary) (.releasing trackerId after))
      (actions ++ more) := by
  have hheld : (s.processes p).holds = some trackerId := by rw [hprocess]; rfl
  have hid := (h.locks p trackerId hheld).1
  obtain ⟨hrunner, uuid, rfl⟩ := h.fits_at hprocess
  refine h.work hheld (Directory.works_unlink (name_of_append hid _))
    (fun name hname => Function.update_of_ne (hname uuid) _ _) rfl hrunner
    (fun other hother => ?_) rfl
  cases hother

/-- **A lock file is removed.** -/
theorem Refines.unlock (h : Refines L docs s actions)
    (hheld : (s.processes p).holds = some trackerId) (hholds : process.holds = none)
    (hturns : (TrackerWorld.after L actions).Turns (TrackerWorld.after L (actions ++ more)) p place)
    (hnew : process.new = none)
    (hfits : Fits L docs (s.files.unlink (lockName trackerId)) (actions ++ more) place process) :
    Refines L docs (s.proceed p (s.files.unlink (lockName trackerId)) process)
      (actions ++ more) := by
  have hid := (h.locks p trackerId hheld).1
  refine h.turn (Directory.works_unlink (name_of_append hid _)) (h.alone hheld)
    (fun other hother => ?_) (fun other _ => ?_) hturns (fun other hother => ?_) hfits
  · rw [hholds] at hother
    cases hother
  · exact Function.update_of_ne (document_ne_lock _ _) _ _
  · rw [hnew] at hother
    cases hother

theorem Refines.releasing (h : Refines L docs s actions) {after : Option Polling}
    (hprocess : s.processes p = .releasing trackerId after) :
    ∃ more, Refines L docs
      (s.proceed p (s.files.unlink (lockName trackerId)) (.resumed after)) (actions ++ more) := by
  have hfits := h.fits_at hprocess
  refine ⟨[], h.unlock (by rw [hprocess]; rfl) ?_ (turns_none hfits) ?_ ?_⟩
  · cases after <;> rfl
  · cases after <;> rfl
  · cases after <;> rfl

/-! ## Views -/

theorem Refines.showing (h : Refines L docs s actions)
    (hprocess : s.processes p = .showing trackerId) :
    ∃ more, Refines L docs (s.proceed p s.files
      (if isTrackerId trackerId then
        match s.files.entries (documentName trackerId) with
        | some file => .viewing trackerId file []
        | none => .idle
      else .idle)) (actions ++ more) := by
  have hfits := h.fits_at hprocess
  have hidle : ∃ more, Refines L docs (s.proceed p s.files .idle) (actions ++ more) :=
    h.fail (by rw [hprocess]; simp) (.inl rfl) rfl rfl
  split_ifs with hid
  · split
    next file hentry =>
      obtain ⟨tracker, hfile, hsynced, hcontents⟩ := h.read hid hentry
      refine h.go (.inl rfl) hfits (fun other hother => ?_) ⟨rfl, s.files.linked _ _ hentry,
        hsynced, List.nil_prefix, actions, tracker, List.prefix_refl _, hfile, hcontents⟩
      cases hother
    · exact hidle
  · exact hidle

theorem Refines.viewing (h : Refines L docs s actions) {file n : ℕ} {text : List UInt8}
    (hprocess : s.processes p = .viewing trackerId file text) :
    ∃ more, Refines L docs (s.proceed p s.files
      (if ((s.files.contents file).drop text.length).take (n + 1) = [] then .shown trackerId text
      else .viewing trackerId file
        (text ++ ((s.files.contents file).drop text.length).take (n + 1)))) (actions ++ more) := by
  have hfits := h.fits_at hprocess
  obtain ⟨hrunner, hfile, hsynced, hread, hseen⟩ := hfits
  split_ifs with hend
  · refine h.go (.inl rfl) hrunner (fun other hother => ?_) ⟨rfl, eq_of_read hread hend ▸ hseen⟩
    cases hother
  · refine h.go (.inl rfl) hrunner (fun other hother => ?_)
      ⟨rfl, hfile, hsynced, append_read n hread, hseen⟩
    cases hother

/-- **The next operation** of a process. -/
theorem Refines.advance (h : Refines L docs s actions) {W : CheckWorld} {uuid : Str} {n : ℕ}
    {t : TrackerFiles} (hstep : s.advance L docs W p uuid n (s.processes p) = some t) :
    ∃ more, Refines L docs t (actions ++ more) := by
  cases hprocess : s.processes p with
  | idle =>
    rw [hprocess] at hstep
    cases hstep
  | dead trackerId =>
    rw [hprocess] at hstep
    cases hstep
  | locking poll =>
    rw [hprocess] at hstep
    cases hstep
    exact h.locking W hprocess
  | opening poll =>
    rw [hprocess] at hstep
    cases hstep
    exact h.opening hprocess
  | reading poll file text =>
    rw [hprocess] at hstep
    cases hstep
    exact h.reading W hprocess
  | checking poll tracker =>
    rw [hprocess] at hstep
    cases hstep
    exact h.checked W hprocess
  | creating tracker =>
    rw [hprocess] at hstep
    cases hstep
    exact h.creating hprocess
  | saving poll tracker phase =>
    rw [hprocess] at hstep
    cases hstep
    cases phase with
    | opening => exact h.save_opening uuid n hprocess
    | writing temporary file rest => exact h.save_writing uuid n hprocess
    | replacing temporary => exact h.save_replacing uuid n hprocess
  | discarding trackerId temporary after =>
    rw [hprocess] at hstep
    cases hstep
    exact h.discarding hprocess
  | releasing trackerId after =>
    rw [hprocess] at hstep
    cases hstep
    exact h.releasing hprocess
  | showing trackerId =>
    rw [hprocess] at hstep
    cases hstep
    exact h.showing hprocess
  | viewing trackerId file text =>
    rw [hprocess] at hstep
    cases hstep
    exact h.viewing hprocess
  | shown trackerId text =>
    rw [hprocess] at hstep
    cases hstep
    exact h.fail (by rw [hprocess]; simp) (.inl rfl) rfl rfl

/-! ## Crashes -/

/-- A killed process fits what is left of it in the store. -/
theorem Fits.killed (h : Fits L docs files actions runner process) :
    Fits L docs files' (actions ++ more) (TrackerWorld.leftOf runner) process.killed := by
  have hheld := h.held
  unfold TrackerProcess.killed TrackerWorld.leftOf
  cases hholds : process.holds with
  | none =>
    rw [hholds, or_self] at hheld
    rw [hheld]
    rfl
  | some trackerId =>
    rw [hholds] at hheld
    rcases hheld with hheld | hheld
    · rw [hheld]
      exact .inr rfl
    · rw [hheld]
      exact .inl rfl

theorem holds_killed (process : TrackerProcess) : process.killed.holds = process.holds := by
  unfold TrackerProcess.killed
  split
  next hnone => exact hnone.symm
  next trackerId hsome => exact hsome.symm

theorem new_killed (process : TrackerProcess) : process.killed.new = none := by
  unfold TrackerProcess.killed
  split <;> rfl

theorem Refines.kill (h : Refines L docs s actions) :
    Refines L docs (s.proceed p s.files (s.processes p).killed) (actions ++ [.kill p]) := by
  refine h.stay (.inr (holds_killed _)) (turns_one TrackerWorld.turns_kill) (fun other hother => ?_)
    (h.fits p).killed
  rw [new_killed] at hother
  cases hother

theorem Refines.clear (h : Refines L docs s actions) (hprocess : s.processes p = .dead trackerId) :
    Refines L docs (s.proceed p (s.files.unlink (lockName trackerId)) .idle)
      (actions ++ [.clear p]) := by
  have hfits := h.fits_at hprocess
  exact h.unlock (by rw [hprocess]; rfl) rfl (turns_one (TrackerWorld.turns_clear hfits)) rfl rfl

/-- The first processes are killed. -/
theorem after_kills (actions : List TrackerAction) (n : ℕ) :
    (TrackerWorld.after L (actions ++ (List.range n).map .kill)).files =
        (TrackerWorld.after L actions).files ∧
      ∀ p, (TrackerWorld.after L (actions ++ (List.range n).map .kill)).runners p =
        if p < n then TrackerWorld.leftOf ((TrackerWorld.after L actions).runners p)
        else (TrackerWorld.after L actions).runners p := by
  induction n with
  | zero => simp
  | succ n ih =>
    have hconcat : actions ++ (List.range (n + 1)).map TrackerAction.kill =
        actions ++ (List.range n).map .kill ++ [.kill n] := by
      simp [List.range_succ]
    have hturns := TrackerWorld.turns_kill (L := L) (p := n)
      (w := TrackerWorld.after L (actions ++ (List.range n).map .kill))
    rw [hconcat, TrackerWorld.after_concat]
    refine ⟨hturns.files.trans ih.1, fun p => ?_⟩
    by_cases hpn : p = n
    · subst hpn
      rw [hturns.at_place, ih.2, if_neg (lt_irrefl p), if_pos (Nat.lt_succ_self p)]
    · rw [hturns.others p hpn, ih.2]
      exact if_congr (by omega) rfl rfl

/-- **The power fails**: every process is killed, and what is synchronized stays. -/
theorem Refines.powerFailure (h : Refines L docs s actions) (garbage : ℕ → List UInt8) :
    ∃ more, Refines L docs { s with
      files := s.files.lose garbage
      processes := fun p => (s.processes p).killed } (actions ++ more) := by
  obtain ⟨n, hidle⟩ := h.bounded
  obtain ⟨hfiles, hrunners⟩ := after_kills (L := L) actions n
  have hleft (p : ℕ) : (TrackerWorld.after L (actions ++ (List.range n).map .kill)).runners p =
      TrackerWorld.leftOf ((TrackerWorld.after L actions).runners p) := by
    rw [hrunners]
    split_ifs with hp
    · rfl
    · have hfits := h.fits p
      rw [hidle p (not_lt.mp hp)] at hfits
      rw [show (TrackerWorld.after L actions).runners p = .idle from hfits]
      rfl
  refine ⟨(List.range n).map .kill, {
    exclusive := fun p q trackerId hp hq => ?_
    locks := fun p trackerId hp => ?_
    documents := fun trackerId hid => ?_
    fits := fun p => ?_
    drawn := fun trackerId tracker hsome => ?_
    fresh := fun p trackerId hnew => ?_
    fresh_once := fun p q trackerId hnew => ?_
    bounded := ⟨n, fun p hp => ?_⟩ }⟩
  · simp only [holds_killed] at hp hq
    exact h.exclusive p q trackerId hp hq
  · simp only [holds_killed] at hp
    exact h.locks p trackerId hp
  · rw [hfiles]
    have hstored := h.documents trackerId hid
    cases hsome : (TrackerWorld.after L actions).files trackerId with
    | none =>
      rw [hsome] at hstored
      exact hstored
    | some tracker =>
      rw [hsome] at hstored
      obtain ⟨file, hentry, hsynced, hcontents⟩ := hstored
      exact ⟨file, hentry, hsynced, (Directory.contents_lose garbage hsynced).trans hcontents⟩
  · rw [hleft]
    exact (h.fits p).killed
  · rw [hfiles] at hsome
    exact h.drawn trackerId tracker hsome
  · simp only [new_killed] at hnew
    cases hnew
  · simp only [new_killed] at hnew
    cases hnew
  · simp only [hidle p hp]
    rfl

/-! ## Beginnings -/

theorem Refines.run (h : Refines L docs s actions) (hprocess : s.processes p = .idle)
    (trackerId : Str) (watch : Bool) (maxChecks : ℕ) :
    Refines L docs (s.proceed p s.files (.locking ⟨trackerId, watch, maxChecks, 0⟩))
      (actions ++ [.run p trackerId watch maxChecks]) := by
  have hrunner := h.fits_at hprocess
  refine h.stay (.inl rfl) (turns_one ?_) (fun other hother => ?_) rfl
  · rw [TrackerAction.exec, show (TrackerWorld.after L actions).runners p = .idle from hrunner]
    exact TrackerWorld.turns_goto
  · cases hother

theorem Refines.create (h : Refines L docs s actions) (hprocess : s.processes p = .idle)
    {W : CheckWorld} {draft : Tracker} {t : TrackerFiles} (hstep : s.create L W p draft = some t) :
    ∃ more, Refines L docs t (actions ++ more) := by
  have hrunner := h.fits_at hprocess
  unfold TrackerFiles.create at hstep
  split_ifs at hstep with hid
  split at hstep
  next baseline hcheck =>
    cases hstep
    have hfree : (TrackerWorld.after L actions).files draft.id = none := by
      cases hfile : (TrackerWorld.after L actions).files draft.id with
      | none => rfl
      | some tracker => exact absurd (h.drawn _ tracker hfile) hid.2
    have hnothing : Directory.Works (fun _ => False) s.files s.files := .refl
    have hsame : TrackerWorld.after L (actions ++ []) = TrackerWorld.after L actions := by
      rw [List.append_nil]
    refine ⟨[], h.move (List.subset_cons_self _ _) hnothing (fun _ _ _ _ _ _ => not_false)
      (fun other hother => by cases hother) (fun _ _ => by rw [hsame]) (fun other hother => ?_)
      (fun other tracker hsome => ?_) (fun q other hq => ?_) (fun other hother => ?_) ?_⟩
    · rw [hsame]
      exact h.documents other hother
    · rw [hsame] at hsome
      exact List.mem_cons_of_mem _ (h.drawn other tracker hsome)
    · by_cases hqp : q = p
      · subst hqp
        have hq' := (congrArg TrackerProcess.new (Function.update_self _ _ _)).symm.trans hq
        obtain rfl := Option.some.inj hq'
        rw [hsame]
        exact hfree
      · rw [hsame]
        exact (h.fresh q other
          ((congrArg TrackerProcess.new (Function.update_of_ne hqp _ _)).symm.trans hq)).2
    · obtain rfl := Option.some.inj hother
      exact ⟨List.mem_cons_self, fun q _ hnew => hid.2 (h.fresh q _ hnew).1⟩
    · rw [hsame]
      exact ⟨hrunner, W, draft, baseline, hcheck, rfl⟩
  · cases hstep

/-- **Each step of the directory is one of the store**, or several, or none. -/
theorem Refines.step (h : Refines L docs s actions) {action : FileAction} {t : TrackerFiles}
    (hstep : step L docs action s = some t) : ∃ more, Refines L docs t (actions ++ more) := by
  cases action with
  | run p trackerId watch maxChecks =>
    cases hprocess : s.processes p with
    | idle =>
      simp only [TrackerFiles.step, hprocess] at hstep
      cases hstep
      exact ⟨_, h.run hprocess trackerId watch maxChecks⟩
    | _ =>
      simp only [TrackerFiles.step, hprocess] at hstep
      cases hstep
  | create W p draft =>
    cases hprocess : s.processes p with
    | idle =>
      simp only [TrackerFiles.step, hprocess] at hstep
      exact h.create hprocess hstep
    | _ =>
      simp only [TrackerFiles.step, hprocess] at hstep
      cases hstep
  | «show» p trackerId =>
    cases hprocess : s.processes p with
    | idle =>
      simp only [TrackerFiles.step, hprocess] at hstep
      cases hstep
      have hrunner := h.fits p
      rw [hprocess] at hrunner
      refine h.go (.inl rfl) hrunner (fun other hother => ?_) rfl
      cases hother
    | _ =>
      simp only [TrackerFiles.step, hprocess] at hstep
      cases hstep
  | advance W p uuid n => exact h.advance hstep
  | raise p uuid =>
    obtain ⟨process, hraised, rfl⟩ := Option.map_eq_some_iff.mp hstep
    exact h.raise hraised
  | kill p =>
    cases hstep
    exact ⟨_, h.kill⟩
  | clear p =>
    cases hprocess : s.processes p with
    | dead trackerId =>
      simp only [TrackerFiles.step, hprocess] at hstep
      cases hstep
      exact ⟨_, h.clear hprocess⟩
    | _ =>
      simp only [TrackerFiles.step, hprocess] at hstep
      cases hstep
  | powerFailure garbage =>
    cases hstep
    exact h.powerFailure garbage

theorem refines_start : Refines L docs start [] where
  exclusive _ _ _ hp := by cases hp
  locks _ _ hp := by cases hp
  documents _ _ := rfl
  fits _ := rfl
  drawn _ _ hsome := by cases hsome
  fresh _ _ hnew := by cases hnew
  fresh_once _ _ _ hnew := by cases hnew
  bounded := ⟨0, fun _ _ => rfl⟩

variable (L docs)

/-- **The directory refines the store of trackers**: after any run, with failures, crashes and power
failures at any step, every document is the one that some actions of the store have saved; no two
processes have one tracker; and what was shown of a tracker is the whole document that it had
after some of these actions. -/
theorem tracker_files_refine {steps : List FileAction} (hrun : run L docs steps = some s) :
    ∃ actions, (∀ trackerId, isTrackerId trackerId = true →
        (s.files.entries (documentName trackerId)).map s.files.contents =
          ((TrackerWorld.after L actions).files trackerId).map docs.dump) ∧
      (∀ p q trackerId, (s.processes p).holds = some trackerId →
        (s.processes q).holds = some trackerId → p = q) ∧
      ∀ p trackerId text, s.processes p = .shown trackerId text →
        Seen L docs actions trackerId text := by
  obtain ⟨actions, h⟩ : ∃ actions, Refines L docs s actions := by
    refine Interleaving.run_invariant (I := fun s => ∃ actions, Refines L docs s actions)
      ⟨[], refines_start⟩ ?_ hrun
    rintro - action - c c' - - hstep ⟨actions, h⟩
    obtain ⟨more, hmore⟩ := h.step hstep
    exact ⟨actions ++ more, hmore⟩
  refine ⟨actions, fun trackerId hid => ?_, h.exclusive, fun p trackerId text hshown => ?_⟩
  · have hstored := h.documents trackerId hid
    cases hfile : (TrackerWorld.after L actions).files trackerId with
    | none =>
      rw [hfile] at hstored
      rw [show s.files.entries (documentName trackerId) = none from hstored]
      rfl
    | some tracker =>
      rw [hfile] at hstored
      obtain ⟨file, hentry, -, hcontents⟩ := hstored
      rw [hentry]
      exact congrArg some hcontents
  · have hfits := h.fits p
    rw [hshown] at hfits
    exact hfits.2

/-! ### A sample run -/

/-- A board without jobs. -/
def emptyBoard : CheckWorld where
  environ _ := "k".toList
  fetchPage _ := .ok ("no jobs".toList, [])
  askModel _ := .ok ⟨true, [], Nat.zero_le _⟩
  now := "2026-01-01T00:00:00+00:00".toList

/-- A tracker of that board, with its baseline. -/
def boardTracker : Tracker where
  id := "0123456789abcdef0123456789abcdef".toList
  url := "https://a.example/".toList
  scope := .company
  keyEnv := "K".toList
  fields := []
  fields_unique := .nil
  history := [⟨emptyBoard.now, true, [], []⟩]

def boardText : List UInt8 :=
  ("\x7b\"id\": \"0123456789abcdef0123456789abcdef\", \"url\": \"https://a.example/\", " ++
    "\"scope\": \"company\", \"key_env\": \"K\", \"fields\": [], \"history\": [\x7b" ++
    "\"checked_at\": \"2026-01-01T00:00:00+00:00\", \"baseline\": true, \"jobs\": [], " ++
    "\"changes\": []\x7d]\x7d").toList.map fun c => UInt8.ofNat c.toNat

deriving instance DecidableEq for Tracker

/-- The document of that tracker. -/
def boardDocuments : TrackerDocuments where
  dump tracker := if tracker = boardTracker then boardText else []
  validate text := if text = boardText then some boardTracker else none
  validate_dump tracker tracker' h := by
    have hne : [] ≠ boardText := by decide +kernel
    by_cases hsame : tracker = boardTracker
    · rw [if_pos hsame, if_pos rfl] at h
      exact (Option.some.inj h).symm.trans hsame.symm
    · rw [if_neg hsame, if_neg hne] at h
      cases h

/-- The tracker is created; the power fails before the lock file is removed; it is shown. -/
def boardSteps : List FileAction :=
  [.create emptyBoard 0 boardTracker, .advance emptyBoard 0 [] 0, .advance emptyBoard 0 [] 0,
    .advance emptyBoard 0 [] 99, .advance emptyBoard 0 [] 999, .advance emptyBoard 0 [] 0,
    .advance emptyBoard 0 [] 0, .powerFailure fun _ => [], .show 1 boardTracker.id,
    .advance emptyBoard 1 [] 0, .advance emptyBoard 1 [] 9, .advance emptyBoard 1 [] 999,
    .advance emptyBoard 1 [] 0]

/-- What a process has shown. -/
def viewed (p : ℕ) (s : TrackerFiles) : Option (Str × List UInt8) :=
  match s.processes p with
  | .shown trackerId text => some (trackerId, text)
  | _ => none

theorem board_shown : ∃ s, run .ascii boardDocuments boardSteps = some s ∧
    s.processes 1 = .shown boardTracker.id boardText ∧
      ∃ actions, Seen .ascii boardDocuments actions boardTracker.id boardText := by
  have hrun : (run .ascii boardDocuments boardSteps).bind (viewed 1) =
      some (boardTracker.id, boardText) := by decide +kernel
  obtain ⟨s, hs, hview⟩ := Option.bind_eq_some_iff.mp hrun
  have hshown : s.processes 1 = .shown boardTracker.id boardText := by
    unfold viewed at hview
    split at hview
    next trackerId text hprocess =>
      cases hview
      exact hprocess
    · cases hview
  obtain ⟨actions, -, -, hseen⟩ := tracker_files_refine .ascii boardDocuments hs
  exact ⟨s, hs, hshown, actions, hseen 1 _ _ hshown⟩

end TrackerFiles

end JobPing
