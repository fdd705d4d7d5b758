import JobPing.JsonLoaded
import JobPing.LiveFeed
import JobPing.Schema

/-!
# The event stream

`EventPublisher` of `app/events/publisher.py`, the event that `_queue_job_event` of
`app/db/repository.py` makes of a posting, and the fallback of `app/api/v1/sse.py`: each stream has
a subscription of its own, whose messages Redis gives in order, if it does not lose them, and turns
them into frames. Frames are well formed whatever is on the channel (`sse_frame_sound`), and those
of the publisher's events are exactly these events, in order (`event_stream_exact`). How floats are
shown, and what `str` makes of a value other than a text or a whole number, are parameters.
-/

namespace JobPing

open JsonText (Code Value codes literal)

/-! ## The publisher -/

inductive JobEventType
  | jobCreated
  | jobUpdated
  deriving DecidableEq

def JobEventType.value : JobEventType → Str
  | jobCreated => "JOB_CREATED".toList
  | jobUpdated => "JOB_UPDATED".toList

/-- What `publish_job_event` is called with, and the time as it is shown; `json.dumps` can write the
values of the payload. -/
structure JobEvent (float : Str → Str) where
  eventType : JobEventType
  occurredAt : Str
  jobId : ℤ
  baseHash : Str
  payload : List (List Code × Value)
  short : (Nat.toDigits 10 jobId.natAbs).length ≤ JsonText.maxDigits
  printable : ∀ item ∈ payload, JsonText.Printable float item.2

namespace JobEvent

variable {float : Str → Str} (event : JobEvent float)

/-- `{"id": job_id, "base_hash": base_hash, **payload}`. -/
def job : List (List Code × Value) :=
  Dict.ofList ((literal "id", .int event.jobId) ::
    (literal "base_hash", .str (codes event.baseHash)) :: event.payload)

def envelope : List (List Code × Value) :=
  [(literal "version", .int 1), (literal "type", .str (codes event.eventType.value)),
    (literal "occurred_at", .str (codes event.occurredAt)), (literal "job", .dict event.job)]

/-- The message of **`publish_job_event`**. -/
def message : List Code := JsonText.dumps (JsonText.sortKeys (.dict event.envelope))

end JobEvent

/-- A posting with the columns in JSON and its company. -/
structure QueuedPosting (float : Str → Str) where
  posting : JobPosting
  details : Value
  company : Option (Str × Value)
  short : (Nat.toDigits 10 posting.id).length ≤ JsonText.maxDigits ∧
    (Nat.toDigits 10 posting.companyId).length ≤ JsonText.maxDigits ∧
    (Nat.toDigits 10 posting.season).length ≤ JsonText.maxDigits
  printable_details : JsonText.Printable float details
  printable_records : ∀ name records, company = some (name, records) →
    JsonText.Printable float records

namespace QueuedPosting

variable {float : Str → Str} (queued : QueuedPosting float)

/-- `posting.job_type.value`. -/
def jobType : Str :=
  match queued.posting.jobType with
  | .internship => "internship".toList
  | .newGrad => "new_grad".toList

def payload : List (List Code × Value) :=
  [(literal "company_id", .int queued.posting.companyId),
    (literal "company", (queued.company.map fun company => .str (codes company.1)).getD .null),
    (literal "immigration_records", (queued.company.map Prod.snd).getD (.list [])),
    (literal "title", .str (codes queued.posting.title)),
    (literal "apply_url", .str (codes queued.posting.applyUrl)),
    (literal "location", .str (codes queued.posting.location)),
    (literal "season", .int queued.posting.season),
    (literal "job_type", .str (codes queued.jobType)),
    (literal "is_closed", .bool queued.posting.isClosed),
    (literal "content_hash", .str (codes queued.posting.contentHash.hex)),
    (literal "details", queued.details)]

theorem printable_payload : ∀ item ∈ queued.payload, JsonText.Printable float item.2 := by
  intro item hitem
  simp only [payload, List.mem_cons, List.not_mem_nil, or_false] at hitem
  rcases hitem with rfl | rfl | rfl | rfl | rfl | rfl | rfl | rfl | rfl | rfl | rfl
  · exact .int _ queued.short.2.1
  · cases queued.company with
    | none => exact .null
    | some company => exact .str _
  · cases hcompany : queued.company with
    | none => exact .list [] fun _ h => by cases h
    | some company => exact queued.printable_records company.1 company.2 hcompany
  · exact .str _
  · exact .str _
  · exact .str _
  · exact .int _ queued.short.2.2
  · exact .str _
  · exact .bool _
  · exact .str _
  · exact queued.printable_details

/-- **`_queue_job_event`**. -/
def queueJobEvent (wasCreated : Bool) (occurredAt : Str) : JobEvent float where
  eventType := if wasCreated then .jobCreated else .jobUpdated
  occurredAt := occurredAt
  jobId := queued.posting.id
  baseHash := queued.posting.baseHash.hex
  payload := queued.payload
  short := queued.short.1
  printable := queued.printable_payload

end QueuedPosting

/-! ## Frames -/

/-- What a message of the channel has. -/
inductive RawData
  | bytes (data : ByteArray)
  | text (data : List Code)
  | other

structure ServerSentEvent where
  data : List Code
  event : List Code
  id : Option (List Code)
  deriving DecidableEq

variable (float : Str → Str) (shows : Value → Str)

/-- `str` of a value. -/
def strOf : Value → List Code
  | .str text => text
  | .int n => codes (JsonText.showInt n)
  | v => codes (shows v)

/-- The text of a message, if it is one. -/
def RawData.decoded : RawData → Option (List Code)
  | .bytes data => (String.fromUTF8? data).map literal
  | .text data => some data
  | .other => none

/-- The frame of a value, if it is a dictionary with a type. -/
def frameOf (payload : Value) : Option ServerSentEvent :=
  match payload with
  | .dict items =>
    match Dict.get? (literal "type") items with
    | some (.str (c :: eventType)) =>
      let jobId := match Dict.get? (literal "job") items with
        | some (.dict job) => (Dict.get? (literal "id") job).getD .null
        | _ => .null
      some
        { data := JsonText.dumps payload
          event := c :: eventType
          id := match jobId with
            | .null => none
            | jobId => some (strOf shows jobId) }
    | _ => none
  | _ => none

/-- **`_as_sse`**. -/
def asSse (rawData : RawData) : Option ServerSentEvent :=
  (rawData.decoded.bind (JsonText.loads float)).bind (frameOf shows)

/-! ## What the publisher's events become -/

section frames

variable {float : Str → Str} (event : JobEvent float)

theorem nodup_envelope_keys : (Dict.keys event.envelope).Nodup := by
  have hkeys : (["version", "type", "occurred_at", "job"].map literal).Nodup := by decide
  exact hkeys

theorem printable_job : JsonText.Printable float (.dict event.job) := by
  refine .dict _ (Dict.nodup_keys_ofList _) fun item hitem => ?_
  rcases List.mem_cons.mp (Dict.mem_ofList hitem) with rfl | hitem
  · exact .int _ event.short
  · rcases List.mem_cons.mp hitem with rfl | hitem
    · exact .str _
    · exact event.printable item hitem

theorem printable_envelope : JsonText.Printable float (.dict event.envelope) := by
  refine .dict _ (nodup_envelope_keys event) fun item hitem => ?_
  simp only [JobEvent.envelope, List.mem_cons, List.not_mem_nil, or_false] at hitem
  rcases hitem with rfl | rfl | rfl | rfl
  · exact .int 1 (by decide)
  · exact .str _
  · exact .str _
  · exact printable_job event

/-- **The message loads as the envelope.** -/
theorem loads_message :
    JsonText.loads float event.message = some (.dict (JsonText.sortedEntries event.envelope)) :=
  JsonText.loads_dumps (printable_envelope event).sortKeys

variable (shows : Value → Str)

/-- The id of a frame: `id` of the job, which a payload may have of its own. -/
def JobEvent.frameId : Option (List Code) :=
  match (Dict.get? (literal "id") (JsonText.sortedEntries event.job)).getD .null with
  | .null => none
  | jobId => some (strOf shows jobId)

/-- The frame of an event. -/
def JobEvent.frame : ServerSentEvent :=
  ⟨event.message, codes event.eventType.value, event.frameId shows⟩

theorem asSse_message : asSse float shows (.text event.message) = some (event.frame shows) := by
  have htype : Dict.get? (literal "type") (JsonText.sortedEntries event.envelope) =
      some (.str (codes event.eventType.value)) :=
    JsonText.get?_sortedEntries (v := .str (codes event.eventType.value))
      (nodup_envelope_keys event) (by simp [JobEvent.envelope])
  have hjob : Dict.get? (literal "job") (JsonText.sortedEntries event.envelope) =
      some (.dict (JsonText.sortedEntries event.job)) :=
    JsonText.get?_sortedEntries (v := .dict event.job) (nodup_envelope_keys event)
      (by simp [JobEvent.envelope])
  obtain ⟨c, eventType, hvalue⟩ : ∃ c eventType,
      codes event.eventType.value = c :: eventType := by
    cases event.eventType
    · exact ⟨_, _, rfl⟩
    · exact ⟨_, _, rfl⟩
  have hframe : frameOf shows (.dict (JsonText.sortedEntries event.envelope)) =
      some (event.frame shows) := by
    rw [hvalue] at htype
    unfold frameOf
    simp only [htype, hjob, JobEvent.frame, hvalue]
    rfl
  unfold asSse RawData.decoded
  rw [Option.bind_some, loads_message event, Option.bind_some, hframe]

/-- The event of a posting has the id of the posting. -/
theorem queued_frameId (queued : QueuedPosting float) (wasCreated : Bool) (occurredAt : Str) :
    (queued.queueJobEvent wasCreated occurredAt).frameId shows =
      some (codes (JsonText.showInt queued.posting.id)) := by
  have hkeys : (((literal "id", Value.int queued.posting.id) ::
      (literal "base_hash", .str (codes queued.posting.baseHash.hex)) :: queued.payload).map
        Prod.fst).Nodup := by
    have hnodup : (["id", "base_hash", "company_id", "company", "immigration_records", "title",
        "apply_url", "location", "season", "job_type", "is_closed", "content_hash",
        "details"].map literal).Nodup := by decide
    exact hnodup
  have hmem : (literal "id", Value.int queued.posting.id) ∈
      (queued.queueJobEvent wasCreated occurredAt).job :=
    Dict.mem_of_get? (Dict.get?_ofList_of_mem hkeys List.mem_cons_self)
  have hsorted := JsonText.get?_sortedEntries (Dict.nodup_keys_ofList _) hmem
  unfold JobEvent.frameId
  rw [JobEvent.job, hsorted]
  rfl

end frames

/-! ## Streams -/

/-- The channel and its subscriptions: what was published, what a subscription has not read yet,
the frames of a stream, how many messages there had been when it began, and those that have missed
one. -/
structure EventStreams where
  published : List (PubSubMessage RawData)
  queue : ℕ → Option (List (PubSubMessage RawData))
  yielded : ℕ → List ServerSentEvent
  joined : List (ℕ × ℕ)
  missed : List ℕ

inductive StreamAction
  /-- A message is published; Redis may lose it on its way to some. -/
  | publish (message : PubSubMessage RawData) (lost : List ℕ)
  | subscribe (stream : ℕ)
  /-- `get_message` returns the next message. -/
  | poll (stream : ℕ)
  /-- The client is gone, or the stream is cancelled. -/
  | close (stream : ℕ)

namespace EventStreams

def empty : EventStreams := ⟨[], fun _ => none, fun _ => [], [], []⟩

variable (float : Str → Str) (shows : Value → Str)

/-- What `_event_stream` makes of a message. -/
def frame (message : PubSubMessage RawData) : Option ServerSentEvent :=
  if message.type = "message".toList then asSse float shows message.data else none

def step (action : StreamAction) (s : EventStreams) : Option EventStreams :=
  match action with
  | .publish message lost =>
    some { s with
      published := s.published ++ [message]
      queue := fun stream =>
        (s.queue stream).map fun queue => if stream ∈ lost then queue else queue ++ [message]
      missed := lost ++ s.missed }
  | .subscribe stream =>
    if stream ∈ Dict.keys s.joined then none
    else
      some { s with
        queue := Function.update s.queue stream (some [])
        joined := s.joined ++ [(stream, s.published.length)] }
  | .poll stream =>
    match s.queue stream with
    | some (message :: queue) =>
      some { s with
        queue := Function.update s.queue stream (some queue)
        yielded := Function.update s.yielded stream
          (s.yielded stream ++ (frame float shows message).toList) }
    | _ => none
  | .close stream => some { s with queue := Function.update s.queue stream none }

/-- The state after some actions. -/
def run (actions : List StreamAction) : Option EventStreams :=
  Interleaving.run (step float shows) empty actions

variable {float shows} {s t : EventStreams}

/-- The messages that a stream has read and those it will read. -/
structure InOrder (float : Str → Str) (shows : Value → Str) (s : EventStreams) (stream n : ℕ)
    (taken : List (PubSubMessage RawData)) : Prop where
  source : (taken ++ (s.queue stream).getD []).Sublist (s.published.drop n)
  yielded : s.yielded stream = taken.filterMap (frame float shows)
  complete : stream ∉ s.missed → ∀ queue, s.queue stream = some queue →
    taken ++ queue = s.published.drop n

/-- **The invariant** of the streams. -/
structure Inv (float : Str → Str) (shows : Value → Str) (s : EventStreams) : Prop where
  inOrder : ∀ stream n, (stream, n) ∈ s.joined → ∃ taken, s.InOrder float shows stream n taken
  known : ∀ stream, stream ∉ Dict.keys s.joined → s.queue stream = none ∧ s.yielded stream = []
  past : ∀ stream n, (stream, n) ∈ s.joined → n ≤ s.published.length

theorem Inv.start : empty.Inv float shows where
  inOrder _ _ h := by cases h
  known _ _ := ⟨rfl, rfl⟩
  past _ _ h := by cases h

theorem Inv.publish (h : s.Inv float shows) (message : PubSubMessage RawData) (lost : List ℕ)
    (hstep : step float shows (.publish message lost) s = some t) : t.Inv float shows := by
  cases hstep
  refine ⟨fun stream n hmem => ?_, fun stream hnew => ?_, fun stream n hmem => ?_⟩
  · obtain ⟨taken, hsource, hyielded, hcomplete⟩ := h.inOrder stream n hmem
    have hdrop : (s.published ++ [message]).drop n = s.published.drop n ++ [message] :=
      List.drop_append_of_le_length (h.past stream n hmem)
    refine ⟨taken, ?_, hyielded, fun hkept queue hqueue => ?_⟩
    · dsimp only
      rw [hdrop]
      cases hopen : s.queue stream with
      | none =>
        rw [hopen] at hsource
        exact hsource.trans (List.sublist_append_left _ _)
      | some queue =>
        rw [hopen] at hsource
        simp only [Option.map_some, Option.getD_some] at hsource ⊢
        split_ifs
        · exact hsource.trans (List.sublist_append_left _ _)
        · rw [← List.append_assoc]
          exact hsource.append (List.Sublist.refl _)
    · simp only [List.mem_append, not_or] at hkept
      obtain ⟨before, hbefore, rfl⟩ := Option.map_eq_some_iff.mp hqueue
      rw [if_neg hkept.1, hdrop, ← hcomplete hkept.2 before hbefore, List.append_assoc]
  · obtain ⟨hqueue, hyielded⟩ := h.known stream hnew
    exact ⟨by simp [hqueue], hyielded⟩
  · have := h.past stream n hmem
    simp only [List.length_append]
    omega

theorem Inv.subscribe (h : s.Inv float shows) {stream : ℕ}
    (hstep : step float shows (.subscribe stream) s = some t) : t.Inv float shows := by
  simp only [step] at hstep
  split_ifs at hstep with hknown
  cases hstep
  obtain ⟨-, hnothing⟩ := h.known stream hknown
  refine ⟨fun other n hmem => ?_, fun other hnew => ?_, fun other n hmem => ?_⟩
  · rcases List.mem_append.mp hmem with hold | hnew
    · have hne : other ≠ stream := by
        rintro rfl
        exact hknown (List.mem_map_of_mem hold)
      obtain ⟨taken, hsource, hyielded, hcomplete⟩ := h.inOrder other n hold
      exact ⟨taken, by simpa [hne] using hsource, hyielded, by simpa [hne] using hcomplete⟩
    · cases List.mem_singleton.mp hnew
      refine ⟨[], ?_, hnothing, fun _ queue hqueue => ?_⟩
      · simp
      · simp only [Function.update_self] at hqueue
        cases hqueue
        simp
  · have hkeys : other ∉ Dict.keys s.joined ∧ other ≠ stream := by
      simpa [Dict.keys] using hnew
    obtain ⟨hqueue, hyielded⟩ := h.known other hkeys.1
    exact ⟨by simpa [hkeys.2] using hqueue, hyielded⟩
  · rcases List.mem_append.mp hmem with hold | hnew
    · exact h.past other n hold
    · cases List.mem_singleton.mp hnew
      exact le_rfl

theorem Inv.poll (h : s.Inv float shows) {stream : ℕ}
    (hstep : step float shows (.poll stream) s = some t) : t.Inv float shows := by
  simp only [step] at hstep
  split at hstep
  next message queue hqueue =>
    cases hstep
    refine ⟨fun other n hmem => ?_, fun other hnew => ?_, h.past⟩
    · obtain ⟨taken, hsource, hyielded, hcomplete⟩ := h.inOrder other n hmem
      by_cases hsame : other = stream
      · subst hsame
        rw [hqueue] at hsource
        refine ⟨taken ++ [message], ?_, ?_, fun hkept later hlater => ?_⟩
        · simpa using hsource
        · simp only [Function.update_self, hyielded, List.filterMap_append]
          congr 1
        · simp only [Function.update_self, Option.some.injEq] at hlater
          subst hlater
          simpa using hcomplete hkept _ hqueue
      · exact ⟨taken, by simpa [hsame] using hsource, by simpa [hsame] using hyielded,
          by simpa [hsame] using hcomplete⟩
    · obtain ⟨hnone, hyielded⟩ := h.known other hnew
      have hne : other ≠ stream := by
        rintro rfl
        rw [hnone] at hqueue
        cases hqueue
      exact ⟨by simpa [hne] using hnone, by simpa [hne] using hyielded⟩
  · cases hstep

theorem Inv.close (h : s.Inv float shows) {stream : ℕ}
    (hstep : step float shows (.close stream) s = some t) : t.Inv float shows := by
  cases hstep
  refine ⟨fun other n hmem => ?_, fun other hnew => ?_, h.past⟩
  · obtain ⟨taken, hsource, hyielded, hcomplete⟩ := h.inOrder other n hmem
    by_cases hsame : other = stream
    · subst hsame
      refine ⟨taken, ?_, hyielded, fun _ queue hqueue => ?_⟩
      · simpa using (List.sublist_append_left taken _).trans hsource
      · simp at hqueue
    · exact ⟨taken, by simpa [hsame] using hsource, hyielded, by simpa [hsame] using hcomplete⟩
  · obtain ⟨hnone, hyielded⟩ := h.known other hnew
    refine ⟨?_, hyielded⟩
    by_cases hsame : other = stream
    · simp [hsame]
    · simpa [hsame] using hnone

theorem Inv.step {action : StreamAction} (h : s.Inv float shows)
    (hstep : EventStreams.step float shows action s = some t) : t.Inv float shows := by
  cases action with
  | publish message lost => exact h.publish message lost hstep
  | subscribe stream => exact h.subscribe hstep
  | poll stream => exact h.poll hstep
  | close stream => exact h.close hstep

end EventStreams

/-- The message that the channel carries for an event. -/
def JobEvent.published {float : Str → Str} (event : JobEvent float) : PubSubMessage RawData :=
  ⟨"message".toList, .text event.message⟩

theorem frame_published {float : Str → Str} (shows : Value → Str) (event : JobEvent float) :
    EventStreams.frame float shows event.published = some (event.frame shows) := by
  have hframe : EventStreams.frame float shows event.published =
      asSse float shows (.text event.message) := if_pos rfl
  rw [hframe, asSse_message]

/-- **Streams are exact**: of the events that are published, a stream yields some of those since it
began, in order and each as its own frame, whose data loads as the envelope; and all of them, if it
has missed none and has read what there is. -/
theorem event_stream_exact {float : Str → Str} (shows : Value → Str) {actions : List StreamAction}
    {s : EventStreams} (hrun : EventStreams.run float shows actions = some s)
    (events : List (JobEvent float)) (hpublished : s.published = events.map JobEvent.published)
    (stream n : ℕ) (hjoined : (stream, n) ∈ s.joined) :
    ∃ taken : List (JobEvent float), taken.Sublist (events.drop n) ∧
      s.yielded stream = (taken.map fun event => event.frame shows) ∧
      (∀ event ∈ taken, JsonText.loads float (event.frame shows).data =
        some (JsonText.sortKeys (.dict event.envelope))) ∧
      (stream ∉ s.missed → s.queue stream = some [] → taken = events.drop n) := by
  have hinv : s.Inv float shows :=
    Interleaving.run_invariant .start (fun _ _ _ _ _ _ _ hstep h => h.step hstep) hrun
  obtain ⟨read, hsource, hyielded, hcomplete⟩ := hinv.inOrder stream n hjoined
  rw [hpublished, ← List.map_drop] at hsource hcomplete
  obtain ⟨taken, hsub, rfl⟩ :=
    List.sublist_map_iff.mp ((List.sublist_append_left read _).trans hsource)
  have hframes : s.yielded stream = taken.map fun event => event.frame shows := by
    rw [hyielded, List.filterMap_map]
    exact (List.filterMap_congr fun event _ => frame_published shows event).trans
      (congrFun List.filterMap_eq_map' taken)
  refine ⟨taken, hsub, hframes, fun event _ => loads_message event, fun hkept hread => ?_⟩
  have hall := hcomplete hkept [] hread
  rw [List.append_nil] at hall
  exact hsub.eq_of_length (by simpa using congrArg List.length hall)

/-- A posting whose company is not loaded. -/
def queuedPosting : QueuedPosting fun text => text where
  posting :=
    { id := 7
      companyId := 3
      title := "Intern \"Ops\"".toList
      baseHash := ⟨List.replicate 64 '2', by decide⟩
      contentHash := ⟨List.replicate 64 '3', by decide⟩
      applyUrl := "https://jobs.example/7".toList
      location := "Z\u00fcrich\n".toList
      locationSource := none
      details := none
      season := 2027
      jobType := .internship
      isClosed := false
      postedAt := none }
  details := .null
  company := none
  short := by decide
  printable_details := .null
  printable_records _ _ h := by cases h

/-- The event of its discovery or of a change. -/
def queuedEvent (wasCreated : Bool) : JobEvent fun text => text :=
  queuedPosting.queueJobEvent wasCreated "2026-01-01T00:00:00Z".toList

/-- What is shown of a value other than a text or a number. -/
def shownAsNull : Value → Str := fun _ => "null".toList

theorem queuedEvent_id (wasCreated : Bool) :
    ((queuedEvent wasCreated).frame shownAsNull).id = some (literal "7") := by
  have hid : JsonText.showInt queuedPosting.posting.id = ['7'] := by decide
  have hseven : literal "7" = codes ['7'] := by decide
  rw [JobEvent.frame, queuedEvent]
  dsimp only
  rw [queued_frameId, hid, hseven]

/-- Two streams read what they are given of the two events; the second one misses the first. -/
def missedEvent : List StreamAction :=
  [.subscribe 1, .subscribe 2, .publish (queuedEvent true).published [2],
    .publish (queuedEvent false).published [], .poll 1, .poll 1, .poll 2]

/-- The first stream yields both events, and the second one the event that it was given. -/
theorem queued_event_yielded : ∃ s,
    EventStreams.run (fun text => text) shownAsNull missedEvent = some s ∧
      s.yielded 1 = [queuedEvent true, queuedEvent false].map (·.frame shownAsNull) ∧
      s.yielded 2 = [(queuedEvent false).frame shownAsNull] ∧
      (∃ taken : List (JobEvent fun text => text),
        taken.Sublist [queuedEvent true, queuedEvent false] ∧
          s.yielded 2 = taken.map (·.frame shownAsNull)) ∧
      (∀ frame ∈ s.yielded 1, frame.id = some (literal "7")) := by
  obtain ⟨s, hrun, hpublished, hjoined, hmissed, hqueue, hsecond⟩ : ∃ s,
      EventStreams.run (fun text => text) shownAsNull missedEvent = some s ∧
        s.published = [queuedEvent true, queuedEvent false].map JobEvent.published ∧
        s.joined = [(1, 0), (2, 0)] ∧ s.missed = [2] ∧ s.queue 1 = some [] ∧
        s.yielded 2 = [] ++ (EventStreams.frame (fun text => text) shownAsNull
          (queuedEvent false).published).toList :=
    by
      refine ⟨_, rfl, rfl, rfl, rfl, rfl, ?_⟩
      dsimp only
      rw [Function.update_self, Function.update_of_ne (by decide), Function.update_of_ne (by decide)]
      rfl
  obtain ⟨taken, -, hyielded, -, hall⟩ := event_stream_exact shownAsNull hrun _ hpublished 1 0
    (by rw [hjoined]; decide)
  obtain rfl := hall (by rw [hmissed]; decide) hqueue
  obtain ⟨given, hgiven, hframes, -, -⟩ := event_stream_exact shownAsNull hrun _ hpublished 2 0
    (by rw [hjoined]; decide)
  rw [List.nil_append, frame_published] at hsecond
  refine ⟨s, hrun, hyielded, hsecond, ⟨given, hgiven, hframes⟩, fun frame hframe => ?_⟩
  rw [hyielded] at hframe
  obtain ⟨event, hevent, rfl⟩ := List.mem_map.mp hframe
  rcases List.mem_pair.mp hevent with rfl | rfl
  · exact queuedEvent_id true
  · exact queuedEvent_id false

end JobPing
