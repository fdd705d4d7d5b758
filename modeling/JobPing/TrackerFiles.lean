import JobPing.Directories
import JobPing.Interleaving
import JobPing.Trackers

/-!
# The files of trackers

`TrackerStore` of `app/trackers/store.py`, file by file: processes that run `run_checks`,
`create_and_save` and `show` of `app/trackers/cli.py` over one directory, where each operation may
raise, each process may be killed, and the power may fail, at any step. What is serialized may be
written and read in pieces of any size.
-/

namespace JobPing

/-- `model_dump_json` and `model_validate_json` of `Tracker`: what is read, if it is read, is the
tracker that was dumped. -/
structure TrackerDocuments where
  dump : Tracker → List UInt8
  validate : List UInt8 → Option Tracker
  validate_dump : ∀ tracker tracker', validate (dump tracker) = some tracker' → tracker' = tracker

/-! ## Names -/

def documentName (trackerId : Str) : Str := trackerId ++ ".json".toList

def lockName (trackerId : Str) : Str := trackerId ++ ".lock".toList

def temporaryName (trackerId uuid : Str) : Str := trackerId ++ ('.' :: uuid ++ ".tmp".toList)

/-! ## Processes -/

/-- What is left to do of `save`. -/
inductive SavePhase
  | opening
  | writing (temporary : Str) (file : ℕ) (rest : List UInt8)
  | replacing (temporary : Str)

/-- The next poll of `run_checks`, if there is one. -/
def Polling.after (poll : Polling) : Option Polling :=
  let count := poll.count + 1
  if !poll.watch || (poll.maxChecks ≠ 0 && poll.maxChecks ≤ count) then none
  else some { poll with count := count }

/-- What a process does next. A poll that is saved may be followed by another one; a new tracker is
saved for no poll. A dead process has left its lock file behind. -/
inductive TrackerProcess
  | idle
  | dead (trackerId : Str)
  | locking (poll : Polling)
  | opening (poll : Polling)
  | reading (poll : Polling) (file : ℕ) (text : List UInt8)
  | checking (poll : Polling) (tracker : Tracker)
  | creating (tracker : Tracker)
  | saving (poll : Option Polling) (tracker : Tracker) (phase : SavePhase)
  | discarding (trackerId temporary : Str) (after : Option Polling)
  | releasing (trackerId : Str) (after : Option Polling)
  | showing (trackerId : Str)
  | viewing (trackerId : Str) (file : ℕ) (text : List UInt8)
  | shown (trackerId : Str) (text : List UInt8)

namespace TrackerProcess

/-- The tracker whose lock file the process has made. -/
def holds : TrackerProcess → Option Str
  | dead trackerId => some trackerId
  | opening poll => some poll.trackerId
  | reading poll _ _ => some poll.trackerId
  | checking poll _ => some poll.trackerId
  | saving (some poll) _ _ => some poll.trackerId
  | saving none tracker _ => some tracker.id
  | discarding trackerId _ _ => some trackerId
  | releasing trackerId _ => some trackerId
  | _ => none

/-- A killed process leaves its lock file. -/
def killed (process : TrackerProcess) : TrackerProcess :=
  match process.holds with
  | none => idle
  | some trackerId => dead trackerId

/-- The beginning of a poll, or the end of the process. -/
def resumed : Option Polling → TrackerProcess
  | none => idle
  | some poll => locking poll

/-- Where an exception leads: `finally` removes the temporary file, then the lock file. One that is
raised there leaves it. -/
def raised (uuid : Str) : TrackerProcess → Option TrackerProcess
  | idle => none
  | dead _ => none
  | opening poll => some (releasing poll.trackerId none)
  | reading poll _ _ => some (releasing poll.trackerId none)
  | checking poll _ => some (releasing poll.trackerId none)
  | saving _ tracker .opening =>
    some (discarding tracker.id (temporaryName tracker.id uuid) none)
  | saving _ tracker (.writing temporary _ _) => some (discarding tracker.id temporary none)
  | saving _ tracker (.replacing temporary) => some (discarding tracker.id temporary none)
  | discarding trackerId _ _ => some (releasing trackerId none)
  | releasing trackerId _ => some (dead trackerId)
  | _ => some idle

end TrackerProcess

/-- The directory, the processes, and the identifiers that were drawn for new trackers. -/
structure TrackerFiles where
  files : Directory Str UInt8
  processes : ℕ → TrackerProcess
  drawn : List Str

namespace TrackerFiles

/-- No file and no process. -/
def start : TrackerFiles := ⟨.empty, fun _ => .idle, []⟩

variable (L : Libraries) (docs : TrackerDocuments) (s : TrackerFiles)

/-- A process goes on, and leaves the files so. -/
def proceed (p : ℕ) (files : Directory Str UInt8) (process : TrackerProcess) : TrackerFiles :=
  { s with files := files, processes := Function.update s.processes p process }

/-- The lock file is made; a tracker that is busy raises. -/
def lock (p : ℕ) (trackerId : Str) (process : TrackerProcess) : TrackerFiles :=
  if isTrackerId trackerId then
    match s.files.create (lockName trackerId) with
    | some files => s.proceed p files process
    | none => s.proceed p s.files .idle
  else s.proceed p s.files .idle

/-- The end of `read_text`: the document is validated. -/
def loaded (p : ℕ) (poll : Polling) (text : List UInt8) : TrackerFiles :=
  match docs.validate text with
  | some tracker =>
    s.proceed p s.files
      (if tracker.id = poll.trackerId then .checking poll tracker
      else .releasing poll.trackerId none)
  | none => s.proceed p s.files (.releasing poll.trackerId none)

/-- `check_tracker`, and what `run_checks` makes of its result. -/
def checked (W : CheckWorld) (p : ℕ) (poll : Polling) (tracker : Tracker) : TrackerFiles :=
  s.proceed p s.files
    (match checkTracker L W tracker with
    | .ok result => .saving (some poll) (tracker.append result) .opening
    | .error (.trackerError _) =>
      .releasing poll.trackerId (if poll.watch then poll.after else none)
    | .error _ => .releasing poll.trackerId none)

/-- An operation of `save`. A name that is there raises, and so does one that is not. -/
def save (p : ℕ) (uuid : Str) (n : ℕ) (poll : Option Polling) (tracker : Tracker) :
    SavePhase → TrackerFiles
  | .opening =>
    let temporary := temporaryName tracker.id uuid
    match s.files.create temporary with
    | some files =>
      s.proceed p files (.saving poll tracker (.writing temporary s.files.next (docs.dump tracker)))
    | none => s.proceed p s.files (.discarding tracker.id temporary none)
  | .writing temporary file rest =>
    if rest = [] then
      s.proceed p (s.files.sync file) (.saving poll tracker (.replacing temporary))
    else
      s.proceed p (s.files.append file (rest.take (n + 1)))
        (.saving poll tracker (.writing temporary file (rest.drop (n + 1))))
  | .replacing temporary =>
    match s.files.rename temporary (documentName tracker.id) with
    | some files => s.proceed p files (.discarding tracker.id temporary (poll.bind Polling.after))
    | none => s.proceed p s.files (.discarding tracker.id temporary none)

/-- The next operation of a process, where nothing raises that need not. What it draws, and how much
it reads or writes, is `uuid` and `n`. -/
def advance (W : CheckWorld) (p : ℕ) (uuid : Str) (n : ℕ) : TrackerProcess → Option TrackerFiles
  | .locking poll => some (s.lock p poll.trackerId (.opening poll))
  | .opening poll =>
    some (s.proceed p s.files
      (match s.files.entries (documentName poll.trackerId) with
      | some file => .reading poll file []
      | none => .releasing poll.trackerId none))
  | .reading poll file text =>
    let chunk := ((s.files.contents file).drop text.length).take (n + 1)
    some (if chunk = [] then s.loaded docs p poll text
      else s.proceed p s.files (.reading poll file (text ++ chunk)))
  | .checking poll tracker => some (s.checked L W p poll tracker)
  | .creating tracker => some (s.lock p tracker.id (.saving none tracker .opening))
  | .saving poll tracker phase => some (s.save docs p uuid n poll tracker phase)
  | .discarding trackerId temporary after =>
    some (s.proceed p (s.files.unlink temporary) (.releasing trackerId after))
  | .releasing trackerId after =>
    some (s.proceed p (s.files.unlink (lockName trackerId)) (.resumed after))
  | .showing trackerId =>
    some (s.proceed p s.files
      (if isTrackerId trackerId then
        match s.files.entries (documentName trackerId) with
        | some file => .viewing trackerId file []
        | none => .idle
      else .idle))
  | .viewing trackerId file text =>
    let chunk := ((s.files.contents file).drop text.length).take (n + 1)
    some (s.proceed p s.files
      (if chunk = [] then .shown trackerId text else .viewing trackerId file (text ++ chunk)))
  | .shown _ _ => some (s.proceed p s.files .idle)
  | _ => none

/-- A new tracker, whose identifier was not drawn before. -/
def create (W : CheckWorld) (p : ℕ) (draft : Tracker) : Option TrackerFiles :=
  if isTrackerId draft.id ∧ draft.id ∉ s.drawn then
    match checkTracker L W { draft with history := [] } with
    | .ok baseline =>
      some { s.proceed p s.files (.creating { draft with history := [baseline] }) with
        drawn := draft.id :: s.drawn }
    | .error _ => none
  else none

end TrackerFiles

/-- What happens next: a process starts, does its next operation or raises there, or is killed; a
lock file that was left is removed by hand; the power fails. -/
inductive FileAction
  | run (p : ℕ) (trackerId : Str) (watch : Bool) (maxChecks : ℕ)
  | create (W : CheckWorld) (p : ℕ) (draft : Tracker)
  | show (p : ℕ) (trackerId : Str)
  | advance (W : CheckWorld) (p : ℕ) (uuid : Str) (n : ℕ)
  | raise (p : ℕ) (uuid : Str)
  | kill (p : ℕ)
  | clear (p : ℕ)
  | powerFailure (garbage : ℕ → List UInt8)

namespace TrackerFiles

variable (L : Libraries) (docs : TrackerDocuments)

def step : FileAction → TrackerFiles → Option TrackerFiles
  | .run p trackerId watch maxChecks, s =>
    match s.processes p with
    | .idle => some (s.proceed p s.files (.locking ⟨trackerId, watch, maxChecks, 0⟩))
    | _ => none
  | .create W p draft, s =>
    match s.processes p with
    | .idle => s.create L W p draft
    | _ => none
  | .show p trackerId, s =>
    match s.processes p with
    | .idle => some (s.proceed p s.files (.showing trackerId))
    | _ => none
  | .advance W p uuid n, s => s.advance L docs W p uuid n (s.processes p)
  | .raise p uuid, s => ((s.processes p).raised uuid).map (s.proceed p s.files)
  | .kill p, s => some (s.proceed p s.files (s.processes p).killed)
  | .clear p, s =>
    match s.processes p with
    | .dead trackerId => some (s.proceed p (s.files.unlink (lockName trackerId)) .idle)
    | _ => none
  | .powerFailure garbage, s =>
    some { s with files := s.files.lose garbage, processes := fun p => (s.processes p).killed }

/-- A run from the empty directory. -/
def run (actions : List FileAction) : Option TrackerFiles :=
  Interleaving.run (step L docs) start actions

end TrackerFiles

end JobPing
