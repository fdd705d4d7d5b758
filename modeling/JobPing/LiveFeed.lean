import JobPing.Dict
import JobPing.Interleaving
import JobPing.Text

/-!
# The live feed

`RedisEventConsumer` of `app/events/consumer.py` and `ConnectionManager` of
`app/api/v1/websocket_manager.py`: one listener takes the messages of the channel in turn, and
broadcasts an event to those that are connected when it begins. The sends of a broadcast end in any
order, and clients come and go meanwhile. What a message must be to be an event is that of any
validator. Redis may lose a message, but gives those of a channel in order.
-/

namespace JobPing

/-- A message that `PubSub.listen` yields. -/
structure PubSubMessage (Data : Type*) where
  type : Str
  data : Data

/-- A broadcast under way: those that have not been sent the event yet, and those that failed. -/
structure Broadcast (Event : Type*) where
  event : Event
  pending : List ℕ
  failed : List ℕ

/-- The channel, the registry of connections and the broadcast, then what has happened: the messages
that were published and the events that were forwarded, each in order, what the clients have
received, and how many events there had been when a client was registered. -/
structure LiveState (Data Event : Type*) where
  channel : List (PubSubMessage Data)
  connections : List ℕ
  broadcast : Option (Broadcast Event)
  published : List (PubSubMessage Data)
  forwarded : List Event
  received : ℕ → List Event
  joined : List (ℕ × ℕ)

/-- How a send ends: it raises or takes too long, though the client may have got the event. -/
inductive SendResult
  | delivered
  | failed (received : Bool)

def SendResult.received : SendResult → Bool
  | .delivered => true
  | .failed received => received

def SendResult.succeeded : SendResult → Bool
  | .delivered => true
  | .failed _ => false

inductive LiveAction (Data : Type*)
  /-- A message is published, and Redis may lose it. -/
  | publish (message : PubSubMessage Data) (lost : Bool)
  /-- The listener takes the next message. -/
  | listen
  /-- A client is accepted and registered. -/
  | connect (client : ℕ)
  | disconnect (client : ℕ)
  | sent (client : ℕ) (result : SendResult)
  /-- All sends have ended, and those that failed go. -/
  | evict

namespace LiveState

variable {Data Event : Type*} (accepts : Data → Option Event)

def start : LiveState Data Event := ⟨[], [], none, [], [], fun _ => [], []⟩

/-- `_forward`, or nothing for another type of message. -/
def event (message : PubSubMessage Data) : Option Event :=
  if message.type = "message".toList then accepts message.data else none

/-- `broadcast_json`, up to the sends. -/
def beginBroadcast (event : Event) (s : LiveState Data Event) : LiveState Data Event :=
  { s with
    forwarded := s.forwarded ++ [event]
    broadcast := if s.connections = [] then none else some ⟨event, s.connections, []⟩ }

/-- The listener takes the next message, if no broadcast is under way. -/
def listen (s : LiveState Data Event) : Option (LiveState Data Event) :=
  match s.broadcast, s.channel with
  | none, message :: channel =>
    match event accepts message with
    | none => some { s with channel := channel }
    | some event => some ({ s with channel := channel }.beginBroadcast event)
  | _, _ => none

/-- A send of the broadcast ends. -/
def send (client : ℕ) (result : SendResult) (b : Broadcast Event) (s : LiveState Data Event) :
    LiveState Data Event :=
  { s with
    broadcast := some
      { b with
        pending := b.pending.filter (· ≠ client)
        failed := if result.succeeded then b.failed else b.failed ++ [client] }
    received := fun other =>
      if other = client && result.received then s.received other ++ [b.event]
      else s.received other }

def step (action : LiveAction Data) (s : LiveState Data Event) : Option (LiveState Data Event) :=
  match action with
  | .publish message lost =>
    some { s with
      published := s.published ++ [message]
      channel := if lost then s.channel else s.channel ++ [message] }
  | .listen => s.listen accepts
  | .connect client =>
    if client ∈ Dict.keys s.joined then none
    else
      some { s with
        connections := s.connections ++ [client]
        joined := s.joined ++ [(client, s.forwarded.length)] }
  | .disconnect client => some { s with connections := s.connections.filter (· ≠ client) }
  | .sent client result =>
    s.broadcast.bind fun b => if client ∈ b.pending then some (s.send client result b) else none
  | .evict =>
    s.broadcast.bind fun b =>
      if b.pending = [] then
        some { s with
          connections := s.connections.filter (· ∉ b.failed)
          broadcast := none }
      else none

/-- The state after some steps. -/
def run (actions : List (LiveAction Data)) : Option (LiveState Data Event) :=
  Interleaving.run (step accepts) start actions

/-! ## Order and completeness -/

/-- The clients that wait for the event of the broadcast, and those that did not get it. -/
def pending (s : LiveState Data Event) : List ℕ := (s.broadcast.map (·.pending)).getD []

def failed (s : LiveState Data Event) : List ℕ := (s.broadcast.map (·.failed)).getD []

structure InOrder (s : LiveState Data Event) : Prop where
  /-- What is forwarded comes from the channel in order, and the rest of the channel after it. -/
  source : ∃ taken, (taken ++ s.channel).Sublist s.published ∧
    s.forwarded = taken.filterMap (event accepts)
  /-- A client has received what was forwarded since it came, up to some event. -/
  prefixed : ∀ client n, (client, n) ∈ s.joined → s.received client <+: s.forwarded.drop n
  /-- One that waits lacks only the event of the broadcast. -/
  waiting : ∀ b, s.broadcast = some b → ∀ client n, client ∈ b.pending → (client, n) ∈ s.joined →
    s.received client ++ [b.event] = s.forwarded.drop n
  /-- One that is registered and has not failed lacks nothing. -/
  complete : ∀ client n, client ∈ s.connections → client ∉ s.pending → client ∉ s.failed →
    (client, n) ∈ s.joined → s.received client = s.forwarded.drop n
  joined : (Dict.keys s.joined).Nodup
  known : ∀ client, client ∈ s.connections ∨ client ∈ s.pending → client ∈ Dict.keys s.joined
  strangers : ∀ client, client ∉ Dict.keys s.joined → s.received client = []
  past : ∀ client n, (client, n) ∈ s.joined → n ≤ s.forwarded.length

variable {accepts} {s t : LiveState Data Event}
  {client n : ℕ}

theorem inOrder_start : (start : LiveState Data Event).InOrder accepts where
  source := ⟨[], List.Sublist.refl _, rfl⟩
  prefixed _ _ h := by cases h
  waiting _ h := by cases h
  complete _ _ h := by cases h
  joined := List.nodup_nil
  known _ h := h.elim (fun h => by cases h) fun h => by cases h
  strangers _ _ := rfl
  past _ _ h := by cases h

theorem drop_forwarded (h : n ≤ s.forwarded.length) (event : Event) :
    (s.forwarded ++ [event]).drop n = s.forwarded.drop n ++ [event] :=
  List.drop_append_of_le_length h

theorem InOrder.publish (h : s.InOrder accepts) (message : PubSubMessage Data) (lost : Bool) :
    InOrder accepts { s with
      published := s.published ++ [message]
      channel := if lost then s.channel else s.channel ++ [message] } where
  source := by
    obtain ⟨taken, hsub, hforwarded⟩ := h.source
    refine ⟨taken, ?_, hforwarded⟩
    cases lost with
    | false =>
      dsimp only
      rw [if_neg Bool.false_ne_true, ← List.append_assoc]
      exact hsub.append (List.Sublist.refl _)
    | true => exact hsub.trans (List.sublist_append_left _ _)
  prefixed := h.prefixed
  waiting := h.waiting
  complete := h.complete
  joined := h.joined
  known := h.known
  strangers := h.strangers
  past := h.past

/-- The listener passes a message over. -/
theorem InOrder.ignore (h : s.InOrder accepts) {message : PubSubMessage Data}
    {channel : List (PubSubMessage Data)} (hchannel : s.channel = message :: channel)
    (hevent : event accepts message = none) :
    InOrder accepts { s with channel := channel } where
  source := by
    obtain ⟨taken, hsub, hforwarded⟩ := h.source
    refine ⟨taken ++ [message], ?_, ?_⟩
    · rw [hchannel] at hsub
      simpa using hsub
    · rw [List.filterMap_append, ← hforwarded]
      simp [hevent]
  prefixed := h.prefixed
  waiting := h.waiting
  complete := h.complete
  joined := h.joined
  known := h.known
  strangers := h.strangers
  past := h.past

/-- **A broadcast begins**: those that are registered lack the event only. -/
theorem InOrder.beginBroadcast (h : s.InOrder accepts) {message : PubSubMessage Data}
    {channel : List (PubSubMessage Data)} {e : Event} (hidle : s.broadcast = none)
    (hchannel : s.channel = message :: channel) (hevent : event accepts message = some e) :
    (LiveState.beginBroadcast e { s with channel := channel }).InOrder accepts := by
  have hidle_pending : s.pending = [] := by
    rw [pending, hidle]
    rfl
  have hidle_failed : s.failed = [] := by
    rw [failed, hidle]
    rfl
  have hpending : (LiveState.beginBroadcast e { s with channel := channel }).pending =
      s.connections := by
    rw [pending, LiveState.beginBroadcast]
    dsimp only
    split_ifs with hempty
    · exact hempty.symm
    · rfl
  refine ⟨?_, fun client n hmem => ?_, fun b hb client n hclient hmem => ?_,
    fun client n hclient hnot => ?_, h.joined, fun client hclient => ?_, h.strangers,
    fun client n hmem => ?_⟩
  · obtain ⟨taken, hsub, hforwarded⟩ := h.source
    refine ⟨taken ++ [message], ?_, ?_⟩
    · rw [hchannel] at hsub
      simpa [LiveState.beginBroadcast] using hsub
    · rw [List.filterMap_append, ← hforwarded]
      simp [LiveState.beginBroadcast, hevent]
  · change s.received client <+: (s.forwarded ++ [e]).drop n
    rw [drop_forwarded (h.past client n hmem)]
    exact (h.prefixed client n hmem).trans (List.prefix_append _ _)
  · have hb' : (if s.connections = [] then none else some ⟨e, s.connections, []⟩) = some b := hb
    split_ifs at hb' with hempty
    cases hb'
    change s.received client ++ [e] = (s.forwarded ++ [e]).drop n
    rw [drop_forwarded (h.past client n hmem),
      h.complete client n hclient (by simp [hidle_pending]) (by simp [hidle_failed]) hmem]
  · rw [hpending] at hnot
    exact absurd hclient hnot
  · rw [hpending] at hclient
    exact h.known client (.inl (hclient.elim id id))
  · have hlength := h.past client n hmem
    change n ≤ (s.forwarded ++ [e]).length
    rw [List.length_append]
    omega

theorem InOrder.connect (h : s.InOrder accepts) (hclient : client ∉ Dict.keys s.joined) :
    InOrder accepts { s with
      connections := s.connections ++ [client]
      joined := s.joined ++ [(client, s.forwarded.length)] } := by
  have hkeys : Dict.keys (s.joined ++ [(client, s.forwarded.length)]) =
      Dict.keys s.joined ++ [client] := List.map_append
  have hcases : ∀ {other n}, (other, n) ∈ s.joined ++ [(client, s.forwarded.length)] →
      (other, n) ∈ s.joined ∨ other = client ∧ n = s.forwarded.length := by
    intro other n hmem
    simpa using hmem
  refine ⟨h.source, fun other n hmem => ?_, fun b hb other n hother hmem => ?_,
    fun other n hother hpending hfailed hmem => ?_, ?_, fun other hother => ?_,
    fun other hother => ?_, fun other n hmem => ?_⟩
  · rcases hcases hmem with hold | ⟨rfl, rfl⟩
    · exact h.prefixed other n hold
    · rw [show s.received other = [] from h.strangers other hclient]
      exact List.nil_prefix
  · rcases hcases hmem with hold | ⟨rfl, rfl⟩
    · exact h.waiting b hb other n hother hold
    · refine absurd (h.known other (.inr ?_)) hclient
      rw [pending, show s.broadcast = some b from hb]
      exact hother
  · rcases hcases hmem with hold | ⟨rfl, rfl⟩
    · rcases List.mem_append.mp hother with hregistered | hnew
      · exact h.complete other n hregistered hpending hfailed hold
      · have hkey : client ∈ Dict.keys s.joined :=
          List.mem_singleton.mp hnew ▸ List.mem_map_of_mem hold
        exact absurd hkey hclient
    · rw [show s.received other = [] from h.strangers other hclient]
      exact (List.drop_length).symm
  · rw [hkeys]
    exact List.Nodup.append h.joined (List.nodup_singleton _) (by simpa using hclient)
  · rw [hkeys]
    rcases hother with hother | hother
    · rcases List.mem_append.mp hother with hold | hnew
      · exact List.mem_append_left _ (h.known other (.inl hold))
      · exact List.mem_append_right _ hnew
    · exact List.mem_append_left _ (h.known other (.inr hother))
  · rw [hkeys] at hother
    exact h.strangers other fun hold => hother (List.mem_append_left _ hold)
  · rcases hcases hmem with hold | ⟨-, rfl⟩
    · exact h.past other n hold
    · exact le_rfl

/-- Connections go. -/
theorem InOrder.leave (h : s.InOrder accepts) (kept : ℕ → Bool) :
    InOrder accepts { s with connections := s.connections.filter kept } where
  source := h.source
  prefixed := h.prefixed
  waiting := h.waiting
  complete client n hclient hpending hfailed hmem :=
    h.complete client n (List.mem_of_mem_filter hclient) hpending hfailed hmem
  joined := h.joined
  known client hclient := h.known client (hclient.imp_left List.mem_of_mem_filter)
  strangers := h.strangers
  past := h.past

/-- **A send ends**: the client has got the event, or it has failed. -/
theorem InOrder.send (h : s.InOrder accepts) {b : Broadcast Event} (hb : s.broadcast = some b)
    (hclient : client ∈ b.pending) (result : SendResult) :
    (s.send client result b).InOrder accepts := by
  have hpending : s.pending = b.pending := by
    rw [pending, hb]
    rfl
  have hfailed : s.failed = b.failed := by
    rw [failed, hb]
    rfl
  have hother : ∀ {other}, other ≠ client → (s.send client result b).received other =
      s.received other := by
    intro other hne
    simp [LiveState.send, hne]
  refine ⟨h.source, fun other n hmem => ?_, fun b' hb' other n hpending' hmem => ?_,
    fun other n hregistered hnot_pending hnot_failed hmem => ?_, h.joined, fun other hmem => ?_,
    fun other hstranger => ?_, h.past⟩
  · by_cases hne : other = client
    · subst hne
      have hwaiting := h.waiting b hb other n hclient hmem
      change (if _ then _ else _) <+: s.forwarded.drop n
      rw [← hwaiting]
      split_ifs
      · exact List.prefix_rfl
      · exact List.prefix_append _ _
    · rw [hother hne]
      exact h.prefixed other n hmem
  · cases hb'
    obtain ⟨hmem_pending, hne⟩ := List.mem_filter.mp hpending'
    rw [hother (by simpa using hne)]
    exact h.waiting b hb other n hmem_pending hmem
  · have hnot_pending' : other ∉ b.pending.filter (· ≠ client) := hnot_pending
    have hnot_failed' : other ∉ if result.succeeded then b.failed else b.failed ++ [client] :=
      hnot_failed
    by_cases hne : other = client
    · subst hne
      cases result with
      | delivered =>
        change (if _ then _ else _) = s.forwarded.drop n
        rw [if_pos (by simp [SendResult.received])]
        exact h.waiting b hb other n hclient hmem
      | failed received => simp [SendResult.succeeded] at hnot_failed'
    · rw [hother hne]
      refine h.complete other n hregistered ?_ ?_ hmem
      · rw [hpending]
        exact fun hin => hnot_pending' (List.mem_filter.mpr ⟨hin, by simpa using hne⟩)
      · rw [hfailed]
        intro hin
        refine hnot_failed' ?_
        split_ifs
        · exact hin
        · exact List.mem_append_left _ hin
  · refine h.known other (hmem.imp_right fun hin => ?_)
    rw [hpending]
    exact List.mem_of_mem_filter hin
  · have hne : other ≠ client := by
      rintro rfl
      exact hstranger (h.known other (.inr (hpending ▸ hclient)))
    rw [hother hne]
    exact h.strangers other hstranger

/-- **A broadcast ends**: those that are left have all got the event. -/
theorem InOrder.evict (h : s.InOrder accepts) {b : Broadcast Event} (hb : s.broadcast = some b)
    (hdone : b.pending = []) :
    InOrder accepts { s with
      connections := s.connections.filter (· ∉ b.failed)
      broadcast := none } where
  source := h.source
  prefixed := h.prefixed
  waiting _ hnone := by cases hnone
  complete client n hclient _ _ hmem := by
    obtain ⟨hregistered, hkept⟩ := List.mem_filter.mp hclient
    refine h.complete client n hregistered ?_ ?_ hmem
    · rw [pending, hb]
      change client ∉ b.pending
      rw [hdone]
      exact List.not_mem_nil
    · rw [failed, hb]
      change client ∉ b.failed
      simpa using hkept
  joined := h.joined
  known client hclient := h.known client
    (.inl (hclient.elim List.mem_of_mem_filter fun hnone => by cases hnone))
  strangers := h.strangers
  past := h.past

theorem InOrder.step {action : LiveAction Data} (h : s.InOrder accepts)
    (hstep : step accepts action s = some t) : t.InOrder accepts := by
  cases action with
  | publish message lost =>
    cases hstep
    exact h.publish message lost
  | listen =>
    change s.listen accepts = some t at hstep
    unfold LiveState.listen at hstep
    split at hstep
    next message channel hidle hchannel =>
      cases hevent : event accepts message with
      | none =>
        rw [hevent] at hstep
        cases hstep
        exact h.ignore hchannel hevent
      | some e =>
        rw [hevent] at hstep
        cases hstep
        exact h.beginBroadcast hidle hchannel hevent
    · cases hstep
  | connect client =>
    unfold LiveState.step at hstep
    dsimp only at hstep
    split_ifs at hstep with hknown
    cases hstep
    exact h.connect hknown
  | disconnect client =>
    cases hstep
    exact h.leave _
  | sent client result =>
    obtain ⟨b, hb, hstep⟩ := Option.bind_eq_some_iff.mp hstep
    split_ifs at hstep with hclient
    cases hstep
    exact h.send hb hclient result
  | evict =>
    obtain ⟨b, hb, hstep⟩ := Option.bind_eq_some_iff.mp hstep
    split_ifs at hstep with hdone
    cases hstep
    exact h.evict hb hdone

variable (accepts)

/-- **The feed is in order and complete**: however sends, arrivals and departures interleave, the
events that are forwarded are those of published messages in their order, a client has received
those since it came, without a gap or a repetition, up to some event, and while no broadcast is
under way one that is registered has received all of them. -/
theorem live_feed_in_order {actions : List (LiveAction Data)}
    (hrun : run accepts actions = some s) :
    s.forwarded.Sublist (s.published.filterMap (event accepts)) ∧
    ∀ client n, (client, n) ∈ s.joined →
      s.received client <+: s.forwarded.drop n ∧
      (s.broadcast = none → client ∈ s.connections →
        s.received client = s.forwarded.drop n) := by
  have hinv : s.InOrder accepts :=
    Interleaving.run_invariant inOrder_start
      (fun _ _ _ _ _ _ _ hstep h => h.step hstep) hrun
  obtain ⟨taken, hsub, hforwarded⟩ := hinv.source
  refine ⟨?_, fun client n hmem => ⟨hinv.prefixed client n hmem, fun hidle hregistered => ?_⟩⟩
  · rw [hforwarded]
    exact ((List.sublist_append_left _ _).trans hsub).filterMap _
  · refine hinv.complete client n hregistered ?_ ?_ hmem
    · rw [pending, hidle]
      exact List.not_mem_nil
    · rw [failed, hidle]
      exact List.not_mem_nil

/-- One client gets the first event, the other one fails, and a third one comes in the meantime. -/
def twoBroadcasts : List (LiveAction (Option ℕ)) :=
  [.publish ⟨"subscribe".toList, some 0⟩ false, .connect 1, .connect 2,
    .publish ⟨"message".toList, some 7⟩ false, .publish ⟨"message".toList, none⟩ false,
    .publish ⟨"message".toList, some 8⟩ true, .publish ⟨"message".toList, some 9⟩ false,
    .listen, .listen, .sent 2 (.failed true), .connect 3, .sent 1 .delivered, .evict,
    .listen, .listen, .sent 3 .delivered, .sent 1 .delivered, .evict]

theorem two_broadcasts_in_order : ∃ s, run id twoBroadcasts = some s ∧
    s.connections = [1, 3] ∧ s.forwarded = [7, 9] ∧ s.received 1 = [7, 9] ∧ s.received 3 = [9] := by
  have hstate : (run id twoBroadcasts).map (fun s =>
      (s.connections, s.forwarded, s.joined, s.broadcast.isNone)) =
      some ([1, 3], [7, 9], [(1, 0), (2, 0), (3, 1)], true) := by decide +kernel
  obtain ⟨s, hs, hstate⟩ := Option.map_eq_some_iff.mp hstate
  simp only [Prod.mk.injEq] at hstate
  obtain ⟨hconnections, hforwarded, hjoined, hidle⟩ := hstate
  have hnone : s.broadcast = none := by simpa using hidle
  obtain ⟨-, hall⟩ := live_feed_in_order id hs
  have hfirst := (hall 1 0 (by simp [hjoined])).2 hnone (by simp [hconnections])
  have hthird := (hall 3 1 (by simp [hjoined])).2 hnone (by simp [hconnections])
  rw [hforwarded] at hfirst hthird
  exact ⟨s, hs, hconnections, hforwarded, hfirst, hthird⟩

end LiveState

end JobPing
