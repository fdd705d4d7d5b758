import JobPing.Raising
import JobPing.Schema
import JobPing.SlidingWindow
import Mathlib.Algebra.Order.Ring.Rat
import Mathlib.Data.List.Induction
import Mathlib.Tactic.NormNum

/-!
# Messages of a stream

`guarded_receive` of `app/request_limits/streams.py`, from one message of a connection to the next.
The deque, from which old times are dropped, decides as the whole history would: a connection is
never cut if and only if none of its messages is too long and no five seconds have more than ten of
them (`message_budget`).
-/

namespace JobPing

/-- A message of the server; the text of `websocket.receive` may be missing or `None`. -/
inductive InboundMessage
  | receive (bytes : Option (List UInt8)) (text : Option (Option Str))
  | other

/-- The length of `message.get("bytes") or message.get("text", "").encode()`; `None` has no
`encode`. -/
def InboundMessage.size (bytes : Option (List UInt8)) (text : Option (Option Str)) : Option ℕ :=
  match bytes with
  | some (byte :: rest) => some (byte :: rest).length
  | _ => (text.getD (some [])).map fun text => (text.map Char.utf8Size).sum

inductive ReceiveError
  | streamAbuse
  | attributeError
  deriving DecidableEq

/-- **`guarded_receive`**, with the times of `messages`. -/
def guardedReceive (messages : List ℚ) (now : ℚ) (message : InboundMessage) :
    Except ReceiveError (List ℚ) :=
  match message with
  | .other => .ok messages
  | .receive bytes text =>
    match InboundMessage.size bytes text with
    | none => .error .attributeError
    | some size =>
      let messages := messages.dropWhile (· ≤ now - 5)
      if 4096 < size || 10 ≤ messages.length then .error .streamAbuse
      else .ok (messages ++ [now])

/-- The messages that a connection receives, one after another. -/
def receiveEach (inbound : List (ℚ × InboundMessage)) : Except ReceiveError (List ℚ) :=
  inbound.foldlM (fun messages m => guardedReceive messages m.1 m.2) []

/-- The times of `websocket.receive`. -/
def receiveTimes (inbound : List (ℚ × InboundMessage)) : List ℚ :=
  inbound.filterMap fun m => match m.2 with
    | .receive _ _ => some m.1
    | .other => none

/-- A message is not too long. -/
def InboundMessage.Short : InboundMessage → Prop
  | .receive bytes text => ∃ size ≤ 4096, InboundMessage.size bytes text = some size
  | .other => True

variable {inbound : List (ℚ × InboundMessage)} {messages : List ℚ} {now : ℚ}
  {message : InboundMessage}

theorem receiveEach_concat (inbound : List (ℚ × InboundMessage)) (m : ℚ × InboundMessage) :
    receiveEach (inbound ++ [m]) =
      (receiveEach inbound).bind fun messages => guardedReceive messages m.1 m.2 := by
  unfold receiveEach
  rw [List.foldlM_append]
  simp only [List.foldlM_cons, List.foldlM_nil, bind_pure]
  rfl

theorem receiveTimes_le (hlast : ∀ m ∈ inbound, m.1 ≤ now) :
    ∀ s ∈ receiveTimes inbound, s ≤ now := by
  intro s hs
  obtain ⟨m, hm, heq⟩ := List.mem_filterMap.mp hs
  cases hmessage : m.2 with
  | receive bytes text =>
    rw [hmessage] at heq
    exact Option.some.inj heq ▸ hlast m hm
  | other =>
    rw [hmessage] at heq
    cases heq

theorem receiveTimes_sorted (hsorted : inbound.Pairwise fun m m' => m.1 ≤ m'.1) :
    (receiveTimes inbound).Pairwise (· ≤ ·) := by
  induction inbound using List.reverseRecOn with
  | nil => exact .nil
  | append_singleton inbound m ih =>
    obtain ⟨hbefore, -, horder⟩ := List.pairwise_append.mp hsorted
    have hlast : ∀ m' ∈ inbound, m'.1 ≤ m.1 := fun m' hm' => horder m' hm' m List.mem_cons_self
    obtain ⟨now, message⟩ := m
    unfold receiveTimes
    rw [List.filterMap_append, List.pairwise_append]
    refine ⟨ih hbefore, ?_, fun s hs t ht => ?_⟩
    · cases message <;> simp
    · cases message with
      | receive bytes text =>
        obtain rfl : t = now := by simpa using ht
        exact receiveTimes_le hlast s hs
      | other => simp at ht

theorem receiveTimes_concat (inbound : List (ℚ × InboundMessage)) (now : ℚ)
    (bytes : Option (List UInt8)) (text : Option (Option Str)) :
    receiveTimes (inbound ++ [(now, .receive bytes text)]) = receiveTimes inbound ++ [now] := by
  simp [receiveTimes]

theorem receiveTimes_other (inbound : List (ℚ × InboundMessage)) (now : ℚ) :
    receiveTimes (inbound ++ [(now, .other)]) = receiveTimes inbound := by
  simp [receiveTimes]

/-- **A message is passed on** if it is short and fewer than ten are recent. -/
theorem guardedReceive_iff {bytes : Option (List UInt8)} {text : Option (Option Str)}
    {messages' : List ℚ} : guardedReceive messages now (.receive bytes text) = .ok messages' ↔
      (InboundMessage.receive bytes text).Short ∧
        (SlidingWindow.recent 5 now messages).length < 10 ∧
        messages' = SlidingWindow.recent 5 now messages ++ [now] := by
  unfold guardedReceive InboundMessage.Short
  cases hsize : InboundMessage.size bytes text with
  | none => simp [hsize]
  | some size =>
    simp only [hsize]
    change (if (4096 < size || 10 ≤ (SlidingWindow.recent 5 now messages).length) = true then
      Except.error ReceiveError.streamAbuse
      else .ok (SlidingWindow.recent 5 now messages ++ [now])) = .ok messages' ↔ _
    split_ifs with hover
    · simp only [Bool.or_eq_true, decide_eq_true_eq] at hover
      simp only [Option.some.injEq, false_iff, not_and]
      rintro ⟨size', hle, rfl⟩ hroom
      omega
    · simp only [Bool.or_eq_true, decide_eq_true_eq, not_or, not_lt, not_le] at hover
      simp only [Except.ok.injEq, Option.some.injEq]
      constructor
      · rintro rfl
        exact ⟨⟨size, hover.1, rfl⟩, hover.2, rfl⟩
      · rintro ⟨-, -, rfl⟩
        rfl

/-- **The deque** has the times that a later window can have. -/
theorem recent_of_receiveEach (hsorted : inbound.Pairwise fun m m' => m.1 ≤ m'.1)
    (hreceived : receiveEach inbound = .ok messages) (hlast : ∀ m ∈ inbound, m.1 ≤ now) :
    SlidingWindow.recent 5 now messages = (receiveTimes inbound).filter (now - 5 < ·) := by
  induction inbound using List.reverseRecOn generalizing messages now with
  | nil =>
    cases hreceived
    rfl
  | append_singleton inbound m ih =>
    have htimes := receiveTimes_sorted hsorted
    obtain ⟨hbefore, -, horder⟩ := List.pairwise_append.mp hsorted
    have hfirst : ∀ m' ∈ inbound, m'.1 ≤ m.1 := fun m' hm' => horder m' hm' m List.mem_cons_self
    have hnow : m.1 ≤ now := hlast m (List.mem_append_right _ List.mem_cons_self)
    rw [receiveEach_concat] at hreceived
    obtain ⟨kept, hkept, hpassed⟩ := Raising.bind_eq_ok.mp hreceived
    obtain ⟨time, message⟩ := m
    cases message with
    | other =>
      cases hpassed
      rw [receiveTimes_other]
      exact ih hbefore hkept fun m' hm' => hlast m' (List.mem_append_left _ hm')
    | receive bytes text =>
      obtain ⟨-, -, rfl⟩ := guardedReceive_iff.mp hpassed
      rw [receiveTimes_concat] at htimes ⊢
      have hrecent := ih hbefore hkept hfirst
      have hsub : (SlidingWindow.recent 5 time kept ++ [time]).Pairwise (· ≤ ·) := by
        rw [hrecent]
        exact htimes.sublist (List.filter_sublist.append_right [time])
      rw [SlidingWindow.recent_eq hsub, hrecent, List.filter_append, List.filter_append,
        SlidingWindow.filter_recent hnow]

/-- **The budget** of messages, for times that do not go back: a connection is never cut if and only
if its messages are short and no window of five seconds has more than ten of them. -/
theorem message_budget (hsorted : inbound.Pairwise fun m m' => m.1 ≤ m'.1) :
    (∃ messages, receiveEach inbound = .ok messages) ↔
      (∀ m ∈ inbound, m.2.Short) ∧ SlidingWindow.Paced 10 5 (receiveTimes inbound) := by
  induction inbound using List.reverseRecOn with
  | nil => exact iff_of_true ⟨[], rfl⟩ ⟨fun _ hm => (by cases hm), fun _ => Nat.zero_le _⟩
  | append_singleton inbound m ih =>
    obtain ⟨hbefore, -, horder⟩ := List.pairwise_append.mp hsorted
    have hlast : ∀ m' ∈ inbound, m'.1 ≤ m.1 := fun m' hm' => horder m' hm' m List.mem_cons_self
    obtain ⟨now, message⟩ := m
    have hall : (∀ m ∈ inbound ++ [(now, message)], m.2.Short) ↔
        (∀ m ∈ inbound, m.2.Short) ∧ message.Short := by
      simp [or_imp, forall_and]
    rw [receiveEach_concat, hall]
    cases message with
    | other =>
      rw [receiveTimes_other]
      refine Iff.trans ?_ ((ih hbefore).trans (and_congr_left' (and_iff_left trivial).symm))
      exact exists_congr fun messages => by cases receiveEach inbound <;> rfl
    | receive bytes text =>
      rw [receiveTimes_concat, SlidingWindow.paced_concat (by norm_num) (receiveTimes_le hlast)]
      constructor
      · rintro ⟨messages, hreceived⟩
        obtain ⟨kept, hkept, hpassed⟩ := Raising.bind_eq_ok.mp hreceived
        obtain ⟨hshort, hroom, -⟩ := guardedReceive_iff.mp hpassed
        obtain ⟨hshorts, hpaced⟩ := (ih hbefore).mp ⟨kept, hkept⟩
        rw [recent_of_receiveEach hbefore hkept hlast] at hroom
        exact ⟨⟨hshorts, hshort⟩, hpaced, hroom⟩
      · rintro ⟨⟨hshorts, hshort⟩, hpaced, hroom⟩
        obtain ⟨kept, hkept⟩ := (ih hbefore).mpr ⟨hshorts, hpaced⟩
        rw [← recent_of_receiveEach hbefore hkept hlast] at hroom
        have hpassed := guardedReceive_iff.mpr ⟨hshort, hroom, rfl⟩
        exact ⟨_, Raising.bind_eq_ok.mpr ⟨kept, hkept, hpassed⟩⟩

/-- Eleven pings, one every half second. -/
def steadyPings : List (ℚ × InboundMessage) :=
  (List.range 11).map fun i => ((i : ℚ) / 2, .receive none (some (some "ping".toList)))

/-- The last one comes when the first one is out of the window. -/
theorem steady_pings_budget : (∃ messages, receiveEach steadyPings = .ok messages) ∧
    (∀ m ∈ steadyPings, m.2.Short) ∧
      SlidingWindow.Paced 10 5 (receiveTimes steadyPings) := by
  have hsorted : steadyPings.Pairwise fun m m' => m.1 ≤ m'.1 := by decide +kernel
  have hkept : (receiveEach steadyPings).toOption =
      some ((List.range' 1 10).map fun i : ℕ => (i : ℚ) / 2) := by decide +kernel
  have hreceived : ∃ messages, receiveEach steadyPings = .ok messages := by
    cases heq : receiveEach steadyPings with
    | ok messages => exact ⟨messages, rfl⟩
    | error e =>
      rw [heq] at hkept
      cases hkept
  exact ⟨hreceived, (message_budget hsorted).mp hreceived⟩

end JobPing
