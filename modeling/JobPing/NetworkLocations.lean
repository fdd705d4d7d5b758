import JobPing.Hasher
import JobPing.UrlRoundTrip

/-!
# Network locations

The user information, the host and the port of a network location: how they are told apart by
`SplitResult`, and what is read from a text that they were written to.
-/

namespace JobPing

variable {P : Python} {parts parts' : SplitResult} {s text : Str}

/-! ## Partitions -/

theorem partition_cases (separator : Char) (s : Str) :
    separator ∉ s ∧ partition separator s = (s, false, []) ∨
      ∃ before after, s = before ++ separator :: after ∧ separator ∉ before ∧
        partition separator s = (before, true, after) := by
  by_cases hmem : separator ∈ s
  · obtain ⟨before, after, rfl, hbefore⟩ := List.eq_append_cons_of_mem hmem
    exact .inr ⟨before, after, rfl, hbefore, partition_append hbefore after⟩
  · exact .inl ⟨hmem, partition_plain hmem⟩

theorem rpartition_plain {separator : Char} (h : separator ∉ s) :
    rpartition separator s = ([], false, s) := by
  rw [rpartition, partition_plain (by rwa [List.mem_reverse])]
  simp

theorem rpartition_append {separator : Char} {after : Str} (h : separator ∉ after) (before : Str) :
    rpartition separator (before ++ separator :: after) = (before, true, after) := by
  have hreverse : (before ++ separator :: after).reverse =
      after.reverse ++ separator :: before.reverse := by simp
  rw [rpartition, hreverse, partition_append (by rwa [List.mem_reverse])]
  simp

theorem rpartition_cases (separator : Char) (s : Str) :
    separator ∉ s ∧ rpartition separator s = ([], false, s) ∨
      ∃ before after, s = before ++ separator :: after ∧ separator ∉ after ∧
        rpartition separator s = (before, true, after) := by
  by_cases hmem : separator ∈ s
  · obtain ⟨after, before, hreverse, hafter⟩ :=
      List.eq_append_cons_of_mem (List.mem_reverse.mpr hmem)
    have hs : s = before.reverse ++ separator :: after.reverse := by
      rw [← List.reverse_reverse s, hreverse]
      simp
    have hafter' : separator ∉ after.reverse := by rwa [List.mem_reverse]
    exact .inr ⟨_, _, hs, hafter', hs ▸ rpartition_append hafter' _⟩
  · exact .inl ⟨hmem, rpartition_plain hmem⟩

/-! ## User information -/

/-- The host and the port of a network location. -/
def SplitResult.hostPort (parts : SplitResult) : Str := (rpartition '@' parts.netloc).2.2

/-- The user information as it is written again. -/
theorem canonicalUserInfo_cases (parts : SplitResult) :
    (canonicalUserInfo parts = [] ∧ rpartition '@' parts.netloc = ([], false, parts.netloc)) ∨
      ∃ before, canonicalUserInfo parts = before ++ ['@'] ∧
        parts.netloc = before ++ '@' :: parts.hostPort ∧
        rpartition '@' parts.netloc = (before, true, parts.hostPort) := by
  unfold canonicalUserInfo SplitResult.userinfo SplitResult.hostPort
  rcases rpartition_cases '@' parts.netloc with ⟨hplain, hpart⟩ | ⟨before, after, hs, hafter, hpart⟩
  · rw [hpart]
    exact .inl ⟨rfl, rfl⟩
  · rw [hpart]
    refine .inr ⟨before, ?_, hs, rfl⟩
    rcases partition_cases ':' before with ⟨-, huser⟩ | ⟨username, password, hbefore, -, huser⟩
    · simp only [huser, if_true, Bool.false_eq_true, if_false]
      simp
    · simp only [huser, if_true]
      rw [hbefore, List.append_assoc]

theorem at_not_mem_hostPort (parts : SplitResult) : '@' ∉ parts.hostPort := by
  unfold SplitResult.hostPort
  rcases rpartition_cases '@' parts.netloc with ⟨hplain, hpart⟩ | ⟨before, after, -, hafter, hpart⟩
  · rwa [hpart]
  · rwa [hpart]

/-- **The network location** is the user information, as it is written again, and the rest. -/
theorem netloc_eq (parts : SplitResult) :
    parts.netloc = canonicalUserInfo parts ++ parts.hostPort := by
  rcases canonicalUserInfo_cases parts with ⟨huser, hpart⟩ | ⟨before, huser, hnetloc, -⟩
  · rw [huser, SplitResult.hostPort, hpart]
    rfl
  · rw [huser, List.append_assoc]
    exact hnetloc

/-- Another host leaves the user information as it is. -/
theorem user_info_again (hhost : '@' ∉ text)
    (hnetloc : parts'.netloc = canonicalUserInfo parts ++ text) :
    canonicalUserInfo parts' = canonicalUserInfo parts ∧ parts'.hostPort = text := by
  have hsame (before : Str) (found : Bool) (rest : Str)
      (hpart : rpartition '@' parts.netloc = (before, found, rest))
      (hpart' : rpartition '@' parts'.netloc = (before, found, text)) :
      canonicalUserInfo parts' = canonicalUserInfo parts ∧ parts'.hostPort = text := by
    simp only [canonicalUserInfo, SplitResult.userinfo, SplitResult.hostPort, hpart, hpart',
      and_self]
  rcases canonicalUserInfo_cases parts with ⟨huser, hpart⟩ | ⟨before, huser, -, hpart⟩
  · rw [huser, List.nil_append] at hnetloc
    exact hsame _ _ _ hpart (by rw [hnetloc, rpartition_plain hhost])
  · rw [huser, List.append_assoc, List.singleton_append] at hnetloc
    exact hsame _ _ _ hpart (by rw [hnetloc, rpartition_append hhost before])

/-! ## Hosts and ports -/

/-- A port, or none where it is empty. -/
def portOf (text : Str) : Option Str := if text = [] then none else some text

/-- The host and the port where there is no bracket. -/
theorem hostinfo_plain (h : '[' ∉ parts.hostPort) :
    parts.hostinfo =
      ((partition ':' parts.hostPort).1, portOf (partition ':' parts.hostPort).2.2) := by
  have htext : (rpartition '@' parts.netloc).2.2 = parts.hostPort := rfl
  simp only [SplitResult.hostinfo, htext, partition_plain h, portOf, Bool.false_eq_true, if_false]

/-- The host and the port where there is one. -/
theorem hostinfo_bracketed {before bracketed : Str}
    (h : parts.hostPort = before ++ '[' :: bracketed) (hbefore : '[' ∉ before) :
    parts.hostinfo = ((partition ']' bracketed).1,
      portOf (partition ':' (partition ']' bracketed).2.2).2.2) := by
  have htext : (rpartition '@' parts.netloc).2.2 = parts.hostPort := rfl
  simp only [SplitResult.hostinfo, htext, h, partition_append hbefore, portOf, if_true]

/-- The text of a port. -/
def portText (port : Option ℕ) : Str := (port.map fun port => ':' :: Nat.toDigits 10 port).getD []

theorem mem_portText {port : Option ℕ} {c : Char} (hc : c ∈ portText port) :
    c = ':' ∨ c.isDigit = true := by
  cases port with
  | none => cases hc
  | some n =>
    rcases List.mem_cons.mp hc with rfl | hc
    · exact .inl rfl
    · exact .inr (Nat.isDigit_of_mem_toDigits (by decide) (by decide) hc)

/-- The port that a text reads. -/
theorem portOf_text (port : Option ℕ) :
    portOf (partition ':' (portText port)).2.2 = port.map (Nat.toDigits 10) := by
  cases port with
  | none => rfl
  | some n =>
    have hpart : partition ':' (portText (some n)) = ([], true, Nat.toDigits 10 n) :=
      partition_append List.not_mem_nil _
    rw [hpart, portOf, if_neg Nat.toDigits_ne_nil]
    rfl

theorem port_le {n : ℕ} (h : parts.port = some (some n)) : n ≤ 65535 := by
  unfold SplitResult.port at h
  split at h
  · cases h
  · dsimp only at h
    split_ifs at h with _ hle
    obtain rfl := Option.some.inj (Option.some.inj h)
    exact hle

/-- A port is read from its digits. -/
theorem port_again {port : Option ℕ} (hport : parts.hostinfo.2 = port.map (Nat.toDigits 10))
    (hle : ∀ n, port = some n → n ≤ 65535) : parts.port = some port := by
  unfold SplitResult.port
  rw [hport]
  cases port with
  | none => rfl
  | some n =>
    have hdigits : (Nat.toDigits 10 n).all Char.isDigit = true :=
      List.all_eq_true.mpr fun c hc => Nat.isDigit_of_mem_toDigits (by decide) (by decide) hc
    have hvalue : (Nat.toDigits 10 n).foldl (fun n c => 10 * n + (c.toNat - 48)) 0 = n :=
      Nat.ofDigitChars_ten_toDigits
    simp only [Option.map_some, hdigits, if_true, hvalue, hle n rfl]

/-- A host is a part of its network location. It has no colon if no bracket opens there, and no
closing bracket if one does. -/
theorem hostinfo_spec (parts : SplitResult) :
    (∀ c ∈ parts.hostinfo.1, c ∈ parts.hostPort) ∧
      ('[' ∉ parts.hostPort ∧ ':' ∉ parts.hostinfo.1 ∨ ']' ∉ parts.hostinfo.1) := by
  rcases partition_cases '[' parts.hostPort with
    ⟨hplain, -⟩ | ⟨before, bracketed, heq, hbefore, -⟩
  · rw [hostinfo_plain hplain]
    rcases partition_cases ':' parts.hostPort with
      ⟨hcolon, hpart⟩ | ⟨host, port, hs, hcolon, hpart⟩
    · rw [hpart]
      exact ⟨fun _ hc => hc, .inl ⟨hplain, hcolon⟩⟩
    · rw [hpart]
      refine ⟨fun _ hc => ?_, .inl ⟨hplain, hcolon⟩⟩
      rw [hs]
      exact List.mem_append_left _ hc
  · rw [hostinfo_bracketed heq hbefore, heq]
    rcases partition_cases ']' bracketed with ⟨hclosed, hpart⟩ | ⟨host, port, hs, hclosed, hpart⟩
    · rw [hpart]
      exact ⟨fun _ hc => List.mem_append_right _ (List.mem_cons_of_mem _ hc), .inr hclosed⟩
    · rw [hpart, hs]
      exact ⟨fun _ hc => List.mem_append_right _
        (List.mem_cons_of_mem _ (List.mem_append_left _ hc)), .inr hclosed⟩

theorem colon_not_mem_host (h : '[' ∉ parts.hostPort) : ':' ∉ parts.hostinfo.1 := by
  rw [hostinfo_plain h]
  rcases partition_cases ':' parts.hostPort with ⟨hcolon, hpart⟩ | ⟨host, port, -, hcolon, hpart⟩
  · rwa [hpart]
  · rwa [hpart]

/-! ## Brackets -/

theorem check_plain (h : '[' ∉ parts.hostPort) :
    checkBracketedNetloc P parts.netloc = checkBracketedHost P parts.hostinfo.1 := by
  have htext : (rpartition '@' parts.netloc).2.2 = parts.hostPort := rfl
  rw [hostinfo_plain h]
  simp only [checkBracketedNetloc, htext, partition_plain h, Bool.false_eq_true, if_false]

/-- The host of an accepted location with a bracket is checked. -/
theorem checked_host (h : checkBracketedNetloc P parts.netloc = true) :
    checkBracketedHost P parts.hostinfo.1 = true := by
  have htext : (rpartition '@' parts.netloc).2.2 = parts.hostPort := rfl
  rcases partition_cases '[' parts.hostPort with
    ⟨hplain, -⟩ | ⟨before, bracketed, heq, hbefore, hpart⟩
  · rwa [check_plain hplain] at h
  · rw [hostinfo_bracketed heq hbefore]
    simp only [checkBracketedNetloc, htext, hpart, if_true, Bool.and_eq_true] at h
    exact h.2

/-- A closing bracket after a host that no bracket opens is one of the host: ports are digits. -/
theorem closed_host {port : Option ℕ} (hport : parts.port = some port)
    (hplain : '[' ∉ parts.hostPort) : ']' ∈ parts.hostPort ↔ ']' ∈ parts.hostinfo.1 := by
  refine ⟨fun h => ?_, fun h => (hostinfo_spec parts).1 _ h⟩
  rw [hostinfo_plain hplain]
  rcases partition_cases ':' parts.hostPort with ⟨-, hpart⟩ | ⟨host, digits, hs, -, hpart⟩
  · rwa [hpart]
  · have hinfo : parts.hostinfo.2 = portOf digits := by rw [hostinfo_plain hplain, hpart]
    rw [hpart]
    rw [hs] at h
    refine (List.mem_append.mp h).resolve_right fun h => ?_
    have hdigits : ']' ∈ digits := (List.mem_cons.mp h).resolve_left (by decide)
    have hsome : portOf digits = some digits := if_neg (List.ne_nil_of_mem hdigits)
    unfold SplitResult.port at hport
    rw [hinfo, hsome] at hport
    dsimp only at hport
    split_ifs at hport with hall
    exact absurd (List.all_eq_true.mp hall _ hdigits) (by decide)

/-- A host that is written in brackets is accepted. -/
theorem bracketed_accepted (hclose : ']' ∉ text) (hchecked : checkBracketedHost P text = true)
    {port : Option ℕ} (h : parts.hostPort = '[' :: (text ++ ']' :: portText port)) :
    checkBracketedNetloc P parts.netloc = true := by
  have htext : (rpartition '@' parts.netloc).2.2 = parts.hostPort := rfl
  have hpart : partition '[' ('[' :: (text ++ ']' :: portText port)) =
      ([], true, text ++ ']' :: portText port) := partition_append List.not_mem_nil _
  have hport : (portText port = [] || (portText port).head? = some ':') = true := by
    cases port with
    | none => rfl
    | some n => rfl
  simp only [checkBracketedNetloc, htext, h, hpart, partition_append hclose, if_true, hchecked,
    hport, decide_true, Bool.and_self]

end JobPing
