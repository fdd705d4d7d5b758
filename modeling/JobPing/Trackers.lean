import JobPing.DetailExtraction
import JobPing.KeyedDiffs
import Mathlib.Data.Char
import Mathlib.Data.List.Lex
import Mathlib.Data.List.Sort

/-!
# Job trackers

`app/trackers`: a check of a tracked page, the documents of the trackers, and the processes that run
`run_checks` and `create_and_save` on them. What the network and the clock give a check are its
`CheckWorld`. A document is the tracker it was saved from; reading it may raise.
-/

namespace JobPing

variable (L : Libraries)

/-! ## Models -/

/-- `JobObservation.status`. -/
inductive ObservedStatus
  | open
  | closed
  | unknown
  deriving DecidableEq

/-- `JobObservation.facts`; dictionaries are equal whatever the order of their keys. -/
structure JobFacts where
  items : List (Str × Option Str)
  sorted : (items.map Prod.fst).Pairwise (· < ·)
  deriving DecidableEq

/-- `JobObservation`, with `str(url)`. -/
structure JobObservation where
  url : Str
  title : Str
  company : Str
  status : ObservedStatus
  facts : JobFacts
  deriving DecidableEq

/-- `Observation`. -/
structure Observation where
  complete : Bool
  jobs : List JobObservation
  bound : jobs.length ≤ 200

/-- `Change.kind`. -/
inductive JobChangeKind
  | added
  | updated
  | missing
  deriving DecidableEq

/-- `Change`. -/
structure JobChange where
  kind : JobChangeKind
  url : Str
  before : Option JobObservation
  after : Option JobObservation
  deriving DecidableEq

/-- `Check`. -/
structure Check where
  checkedAt : Str
  baseline : Bool
  jobs : List JobObservation
  changes : List JobChange
  deriving DecidableEq

/-- `Tracker.scope`. -/
inductive TrackerScope
  | posting
  | company
  deriving DecidableEq

/-- `Tracker`, with the `key_env` of its provider and the `fields` of its plan. -/
structure Tracker where
  id : Str
  url : Str
  scope : TrackerScope
  keyEnv : Str
  fields : List Str
  fields_unique : fields.Nodup
  history : List Check

/-! ## A check -/

/-- What a check raises. -/
inductive TrackerFailure
  | trackerError (message : Str)
  | httpError
  | raised (e : Raised)

/-- The environment, the network and the clock during a check. -/
structure CheckWorld where
  /-- `os.environ.get(name, "")`. -/
  environ : Str → Str
  /-- `fetch_page`: the text and the links. -/
  fetchPage : Str → Except TrackerFailure (Str × List Str)
  /-- `ask_model` for the observation of a page. -/
  askModel : Str → Except TrackerFailure Observation
  /-- `datetime.now(UTC).isoformat()`. -/
  now : Str

/-- An `httpx.HTTPError` becomes an error of the tracker. -/
def TrackerFailure.ofFetch : TrackerFailure → TrackerFailure
  | httpError => .trackerError "Source request failed; snapshot preserved".toList
  | e => e

/-- `allowed`. -/
def allowedUrls (tracker : Tracker) (links : List Str) : List Str :=
  (links ++ [tracker.url]).filterMap L.httpUrl

/-- The jobs of an observation, sorted by URL, when it may become the next snapshot. -/
def acceptedJobs (tracker : Tracker) (links : List Str) (observation : Observation) :
    Except TrackerFailure (List JobObservation) :=
  let jobs := observation.jobs.insertionSort (·.url ≤ ·.url)
  let urls := jobs.map (·.url)
  if !observation.complete then
    .error (.trackerError "Page extraction is incomplete; previous snapshot preserved".toList)
  else if ¬urls.Nodup ∨ ¬ ∀ url ∈ urls, url ∈ allowedUrls L tracker links then
    .error (.trackerError "AI returned duplicate or unsupported job URLs".toList)
  else if tracker.scope = .posting ∧ 1 < jobs.length then
    .error (.trackerError "Posting tracker returned more than one job".toList)
  else if jobs.any fun job =>
      (job.facts.items.map Prod.fst).toFinset ≠ tracker.fields.toFinset then
    .error (.trackerError "AI facts do not match the tracker plan".toList)
  else .ok jobs

/-- `{str(job.url): job for job in jobs}`. -/
def jobsByUrl (jobs : List JobObservation) : List (Str × JobObservation) :=
  Dict.ofList (jobs.map fun job => (job.url, job))

/-- `"added" if before is None else "missing" if after is None else "updated"`. -/
def changeKind (before after : Option JobObservation) : JobChangeKind :=
  if before = none then .added else if after = none then .missing else .updated

/-- `changes` of a snapshot after another. -/
def changesBetween (previous current : List (Str × JobObservation)) : List JobChange :=
  ((Dict.keys previous ++ Dict.keys current).dedup.insertionSort (· ≤ ·)).filterMap fun url =>
    let before := Dict.get? url previous
    let after := Dict.get? url current
    if before = after then none else some ⟨changeKind before after, url, before, after⟩

/-- **`check_tracker`**. -/
def checkTracker (W : CheckWorld) (tracker : Tracker) : Except TrackerFailure Check :=
  if L.strip (W.environ tracker.keyEnv) = [] then
    .error (.trackerError ("Set the API key environment variable ".toList ++ tracker.keyEnv))
  else do
    let page ← (W.fetchPage tracker.url).mapError TrackerFailure.ofFetch
    let observation ← W.askModel page.1
    let jobs ← acceptedJobs L tracker page.2 observation
    return {
      checkedAt := W.now
      baseline := tracker.history.isEmpty
      jobs := jobs
      changes := match tracker.history.getLast? with
        | none => []
        | some last => changesBetween (jobsByUrl last.jobs) (jobsByUrl jobs) }

/-! ## Documents and processes -/

/-- `[a-f0-9]{32}`. -/
def isTrackerId (trackerId : Str) : Bool :=
  trackerId.length = 32 && trackerId.all "abcdef0123456789".toList.contains

/-- `(tracker.history + [result])[-100:]`. -/
def Tracker.append (tracker : Tracker) (result : Check) : Tracker :=
  { tracker with
    history := (tracker.history ++ [result]).drop ((tracker.history ++ [result]).length - 100) }

/-- The arguments of `run_checks`, and its `count`. -/
structure Polling where
  trackerId : Str
  watch : Bool
  maxChecks : ℕ
  count : ℕ

/-- Where a process stands: at the top of the loop, in the lock, or with the tracker loaded. A dead
one leaves its lock file behind. -/
inductive Runner
  | idle
  | polling (poll : Polling)
  | locked (poll : Polling)
  | checking (poll : Polling) (tracker : Tracker)
  | dead (trackerId : Str)

/-- The end of a round of the loop. -/
def Polling.next (poll : Polling) : Runner :=
  let count := poll.count + 1
  if !poll.watch || (poll.maxChecks ≠ 0 && poll.maxChecks ≤ count) then .idle
  else .polling { poll with count := count }

/-- The tracker whose lock file is the one of the process. -/
def Runner.held : Runner → Option Str
  | .locked poll => some poll.trackerId
  | .checking poll _ => some poll.trackerId
  | .dead trackerId => some trackerId
  | _ => none

/-- The store of the trackers, its lock files, and the processes. -/
structure TrackerWorld where
  files : Str → Option Tracker
  locks : Str → Bool
  runners : ℕ → Runner

namespace TrackerWorld

/-- No tracker and no process. -/
def empty : TrackerWorld := ⟨fun _ => none, fun _ => false, fun _ => .idle⟩

variable (w : TrackerWorld)

/-- A process goes on. -/
def goto (runner : ℕ) (place : Runner) : TrackerWorld :=
  { w with runners := Function.update w.runners runner place }

/-- The lock is released, and the process goes on. -/
def release (runner : ℕ) (trackerId : Str) (place : Runner) : TrackerWorld :=
  { w.goto runner place with locks := Function.update w.locks trackerId false }

/-- `TrackerStore.save`. -/
def save (tracker : Tracker) : TrackerWorld :=
  { w with files := Function.update w.files tracker.id (some tracker) }

/-- `TrackerStore.locked` is entered; a tracker that is busy raises. -/
def lock (runner : ℕ) (poll : Polling) : TrackerWorld :=
  if isTrackerId poll.trackerId && !w.locks poll.trackerId then
    { w.goto runner (.locked poll) with locks := Function.update w.locks poll.trackerId true }
  else w.goto runner .idle

/-- `TrackerStore.load`, of a document that can be read or not. -/
def load (runner : ℕ) (poll : Polling) (readable : Bool) : TrackerWorld :=
  match w.files poll.trackerId with
  | none => w.release runner poll.trackerId .idle
  | some tracker =>
    if readable && tracker.history.length ≤ 100 && tracker.id = poll.trackerId then
      w.goto runner (.checking poll tracker)
    else w.release runner poll.trackerId .idle

/-- The round of `run_checks` after the tracker is loaded; `saved` is whether writing succeeds. -/
def check (W : CheckWorld) (runner : ℕ) (poll : Polling) (tracker : Tracker) (saved : Bool) :
    TrackerWorld :=
  match checkTracker L W tracker with
  | .ok result =>
    if saved then (w.save (tracker.append result)).release runner poll.trackerId poll.next
    else w.release runner poll.trackerId .idle
  | .error (.trackerError _) =>
    w.release runner poll.trackerId (if poll.watch then poll.next else .idle)
  | .error _ => w.release runner poll.trackerId .idle

/-- `create_and_save`, of a tracker whose identifier no document and no lock has. -/
def create (W : CheckWorld) (draft : Tracker) (saved : Bool) : TrackerWorld :=
  match checkTracker L W { draft with history := [] } with
  | .ok baseline =>
    if saved && isTrackerId draft.id && !w.locks draft.id && (w.files draft.id).isNone then
      w.save { draft with history := [baseline] }
    else w
  | .error _ => w

end TrackerWorld

/-- What happens next: a process starts, takes its next step, is interrupted or killed, a tracker is
created, or the lock file of a dead process is removed by hand. -/
inductive TrackerAction
  | run (runner : ℕ) (trackerId : Str) (watch : Bool) (maxChecks : ℕ)
  | step (runner : ℕ) (W : CheckWorld) (readable saved : Bool)
  | interrupt (runner : ℕ)
  | kill (runner : ℕ)
  | create (W : CheckWorld) (draft : Tracker) (saved : Bool)
  | clear (runner : ℕ)

/-- The next state; what is not possible changes nothing. -/
def TrackerAction.exec (w : TrackerWorld) : TrackerAction → TrackerWorld
  | run runner trackerId watch maxChecks =>
    match w.runners runner with
    | .idle => w.goto runner (.polling ⟨trackerId, watch, maxChecks, 0⟩)
    | _ => w
  | step runner W readable saved =>
    match w.runners runner with
    | .polling poll => w.lock runner poll
    | .locked poll => w.load runner poll readable
    | .checking poll tracker => w.check L W runner poll tracker saved
    | _ => w
  | interrupt runner =>
    match w.runners runner with
    | .dead _ => w
    | place =>
      match place.held with
      | none => w.goto runner .idle
      | some trackerId => w.release runner trackerId .idle
  | kill runner =>
    match (w.runners runner).held with
    | none => w.goto runner .idle
    | some trackerId => w.goto runner (.dead trackerId)
  | create W draft saved => w.create L W draft saved
  | clear runner =>
    match w.runners runner with
    | .dead trackerId => w.release runner trackerId .idle
    | _ => w

/-- The state after actions from an empty store. -/
def TrackerWorld.after (actions : List TrackerAction) : TrackerWorld :=
  actions.foldl (TrackerAction.exec L) .empty

end JobPing
