import JobPing.RecapCompleteness
import JobPing.Zones
import Mathlib.Order.Bounds.Basic

/-!
# Recap cutoffs

In zones where eight in the evening comes once on every date, `next_cutoff` is the next instant at
which the wall clock shows it, the loop of `make_recaps` stops at the last one that is due, and the
windows of a subscriber lie end to end (`recap_cutoffs`).
-/

namespace JobPing

variable {cfg : Config} {S : Services} {env : NotificationEnv}

/-! ## Evenings -/

/-- The wall clock shows 20:00 exactly once on every date. -/
def Zone.EveningsOnce (zone : Zone) : Prop := ∀ date : ℤ, zone.Once (date * days 1 + hours 20)

/-- The instants at which the wall clock shows 20:00. -/
def Zone.IsCutoff (zone : Zone) (t : Time) : Prop := zone.astimezone t % days 1 = hours 20

theorem evening_eq {wall : ℤ} (h : wall % days 1 = hours 20) :
    wall = wall / days 1 * days 1 + hours 20 := by
  rw [← h]
  exact (Int.ediv_mul_add_emod wall (days 1)).symm

theorem Zone.EveningsOnce.once {zone : Zone} (hzone : zone.EveningsOnce) {wall : ℤ}
    (h : wall % days 1 = hours 20) : zone.Once wall := by
  rw [evening_eq h]
  exact hzone (wall / days 1)

/-- The zones of the database, where every evening comes once. -/
def ZoneInfo.ofZones (zones : Str → Zone) (hzones : ∀ name, (zones name).EveningsOnce) :
    ZoneInfo where
  astimezone name := (zones name).astimezone
  utc name := (zones name).utc
  later name _ _ hevening hlt := (Zone.lt_utc_iff ((hzones name).once hevening)).mpr hlt

/-- No evening lies between a wall time and the next one. -/
theorem nextEvening_le {wall evening : ℤ} (hevening : evening % days 1 = hours 20)
    (hlt : wall < evening) : nextEvening wall ≤ evening := by
  have hday : days 1 = 86400000000 := rfl
  have hhour : hours 20 = 72000000000 := rfl
  simp only [nextEvening, hday, hhour] at hevening ⊢
  split_ifs <;> omega

section cutoffs

variable {zones : Str → Zone} {hzones : ∀ name, (zones name).EveningsOnce}

/-- **The next cutoff** is the least instant after a given one at which the clock shows 20:00. -/
theorem nextCutoff_isLeast (name : Str) (t : Time) :
    IsLeast {cutoff | t < cutoff ∧ (zones name).IsCutoff cutoff}
      (nextCutoff (.ofZones zones hzones) t name) := by
  have hevening := (nextEvening_spec ((zones name).astimezone t)).1
  have honce := (hzones name).once hevening
  constructor
  · refine ⟨lt_nextCutoff _ t name, ?_⟩
    have hshown := Zone.astimezoneUtc honce
    exact (congrArg (· % days 1) hshown).trans hevening
  · rintro cutoff ⟨hlt, hcutoff⟩
    have hcutoff_eq : cutoff = (zones name).utc ((zones name).astimezone cutoff) :=
      (Zone.eq_utc_iff ((hzones name).once hcutoff)).mpr rfl
    have hwall : (zones name).astimezone t < (zones name).astimezone cutoff :=
      (Zone.lt_utc_iff ((hzones name).once hcutoff)).mp (hcutoff_eq ▸ hlt)
    exact (Zone.utc_le_iff honce).mpr (nextEvening_le hcutoff hwall)

end cutoffs

/-! ## The catch-up loop -/

/-- The loop runs while the next cutoff is due. -/
theorem lastCutoff_iterate (zones : ZoneInfo) (timezone : Str) (now : Time) (fuel : ℕ)
    (stop : Time) : ∃ n, lastCutoff zones timezone now fuel stop =
        (fun stop => nextCutoff zones stop timezone)^[n] stop ∧
      ∀ k < n, (fun stop => nextCutoff zones stop timezone)^[k + 1] stop ≤ now := by
  induction fuel generalizing stop with
  | zero => exact ⟨0, rfl, fun k hk => absurd hk (Nat.not_lt_zero k)⟩
  | succ fuel ih =>
    unfold lastCutoff
    dsimp only
    split_ifs with hnext
    · obtain ⟨n, hn, hdue⟩ := ih (nextCutoff zones stop timezone)
      refine ⟨n + 1, hn, fun k hk => ?_⟩
      cases k with
      | zero => exact hnext
      | succ k => exact hdue k (by omega)
    · exact ⟨0, rfl, fun k hk => absurd hk (Nat.not_lt_zero k)⟩

/-- The loop has stopped: it ran `n` times, and the next cutoff is not due. -/
def CatchUp (zones : ZoneInfo) (timezone : Str) (now nextRecap stop : Time) : Prop :=
  ∃ n, stop = (fun stop => nextCutoff zones stop timezone)^[n] nextRecap ∧
    (∀ k < n, (fun stop => nextCutoff zones stop timezone)^[k + 1] nextRecap ≤ now) ∧
    now < nextCutoff zones stop timezone

theorem catchUp_windowEnd (zones : ZoneInfo) (timezone : Str) {now nextRecap : Time}
    (h : nextRecap ≤ now) :
    CatchUp zones timezone now nextRecap (windowEnd zones timezone now nextRecap) := by
  obtain ⟨n, hn, hdue⟩ :=
    lastCutoff_iterate zones timezone now (now - nextRecap).toNat nextRecap
  exact ⟨n, hn, hdue, (windowEnd_bounds zones timezone h).2.2⟩

/-- **The loop stops at the last cutoff that is due**, or where it started when none is. -/
theorem windowEnd_isGreatest {zones : Str → Zone} {hzones : ∀ name, (zones name).EveningsOnce}
    (name : Str) {now nextRecap : Time} (h : nextRecap ≤ now) :
    IsGreatest {stop | (stop = nextRecap ∨ (zones name).IsCutoff stop) ∧ nextRecap ≤ stop ∧
      stop ≤ now} (windowEnd (.ofZones zones hzones) name now nextRecap) := by
  obtain ⟨hlow, hhigh, hnext⟩ := windowEnd_bounds (.ofZones zones hzones) name h
  constructor
  · refine ⟨?_, hlow, hhigh⟩
    obtain ⟨n, hn, -⟩ := catchUp_windowEnd (.ofZones zones hzones) name h
    cases n with
    | zero => exact .inl hn
    | succ n =>
      rw [Function.iterate_succ_apply'] at hn
      rw [hn]
      exact .inr (nextCutoff_isLeast name _).1.2
  · rintro stop ⟨hstop, hafter, hdue⟩
    by_contra hlater
    have hlater := not_le.mp hlater
    rcases hstop with rfl | hcutoff
    · exact absurd hlow (not_le.mpr hlater)
    · have hle := (@nextCutoff_isLeast zones hzones name _).2 ⟨hlater, hcutoff⟩
      exact absurd (hle.trans hdue) (not_le.mpr hnext)

/-! ## Windows of a run -/

/-- The start of the window of a subscriber. -/
def World.windowStart (id : Str) (w : World) : Option Time :=
  (w.tables.notificationSubscribers.find? (·.id = id)).bind (·.windowStart)

/-- The windows of a subscriber that a step closes. -/
def NotificationStep.windows (cfg : Config) (S : Services) (env : NotificationEnv) (id : Str)
    (w : World) (step : NotificationStep) : List (Time × Time) :=
  ((step.closings cfg S env w).filter (·.1 = id)).filterMap fun closing =>
    (w.windowStart id).map fun start => (start, closing.2)

/-- The windows of a subscriber that a run closes. -/
def World.windows (cfg : Config) (S : Services) (env : NotificationEnv) (id : Str) (w : World)
    (steps : List NotificationStep) : List (Time × Time) :=
  w.log cfg S env (fun w step => step.windows cfg S env id w) steps

/-- The windows lie end to end from one time to another. -/
def Tiles : Time → List (Time × Time) → Time → Prop
  | start, [], stop => start = stop
  | start, window :: rest, stop => window.1 = start ∧ start ≤ window.2 ∧ Tiles window.2 rest stop

/-- A period in which a subscriber keeps the recap on. -/
def World.Subscribed (cfg : Config) (S : Services) (env : NotificationEnv) (id : Str) (w : World)
    (steps : List NotificationStep) : Prop :=
  w.Along cfg S env (fun w step => w.StaysOn id ∧ w.keepsAddress id step = true) steps ∧
    (w.run cfg S env steps).StaysOn id

variable {w : World} {step : NotificationStep} {user user' : Subscriber} {id : Str}
  {steps : List NotificationStep}

theorem Tiles.append {start middle stop : Time} {xs ys : List (Time × Time)}
    (hxs : Tiles start xs middle) (hys : Tiles middle ys stop) : Tiles start (xs ++ ys) stop := by
  induction xs generalizing start with
  | nil =>
    cases hxs
    exact hys
  | cons window xs ih =>
    obtain ⟨hstart, hle, hrest⟩ := hxs
    exact ⟨hstart, hle, ih hrest⟩

/-- The window of a subscriber is that of its row. -/
theorem windowStart_of_row (huser : user ∈ w.tables.notificationSubscribers) :
    w.windowStart user.id = user.windowStart := by
  have hfind := Table.find?_key w.unique.subscriberIds huser
  rw [World.windowStart, hfind, Option.bind_some]

theorem closing_ids_nodup (w : World) (step : NotificationStep) :
    ((step.closings cfg S env w).map Prod.fst).Nodup := by
  unfold NotificationStep.closings
  split
  next now between uuid =>
    have hids := List.pairwise_map.mp (((NotificationStep.prepare now between uuid).exec cfg S env
      w).unique.subscriberIds)
    refine List.pairwise_map.mpr (List.Pairwise.filterMap _ (fun user other hne a ha b hb => ?_) hids)
    split_ifs at ha hb
    obtain ⟨_, -, rfl⟩ := Option.map_eq_some_iff.mp ha
    obtain ⟨_, -, rfl⟩ := Option.map_eq_some_iff.mp hb
    exact hne
  · exact .nil

/-- The entry of a key among entries of different keys. -/
theorem filter_key_eq {α β : Type*} [DecidableEq α] {entries : List (α × β)}
    (hnodup : (entries.map Prod.fst).Nodup) {entry : α × β} (hentry : entry ∈ entries) :
    entries.filter (·.1 = entry.1) = [entry] := by
  induction entries with
  | nil => exact absurd hentry List.not_mem_nil
  | cons first entries ih =>
    rw [List.map_cons, List.nodup_cons] at hnodup
    rcases List.mem_cons.mp hentry with rfl | hentry
    · have hnone : entries.filter (·.1 = entry.1) = [] := List.filter_eq_nil_iff.mpr
        fun other hother heq => hnodup.1 (of_decide_eq_true heq ▸ List.mem_map_of_mem hother)
      rw [List.filter_cons_of_pos (by simp), hnone]
    · have hne : first.1 ≠ entry.1 := fun heq => hnodup.1 (heq ▸ List.mem_map_of_mem hentry)
      rw [List.filter_cons_of_neg (by simpa using hne), ih hnodup.2 hentry]

/-- **One step** closes the window of a subscriber and opens the next one at its end, or leaves the
window alone. -/
theorem tiles_exec (hopen : w.WindowsOpen) (hon : w.StaysOn id)
    (hon' : (step.exec cfg S env w).StaysOn id) (haddress : w.keepsAddress id step = true) :
    ∃ start stop, w.windowStart id = some start ∧
      (step.exec cfg S env w).windowStart id = some stop ∧
      Tiles start (step.windows cfg S env id w) stop := by
  have hrow := hon'
  obtain ⟨user', huser', hid', -⟩ := hrow
  obtain ⟨user, huser, hid, hrecap, hchange⟩ := hon.row_before huser' hid'
  obtain ⟨start, nextRecap, hstart, hnext, hle, -⟩ := hopen user huser hrecap
  have hbefore : w.windowStart id = some start := by rw [← hid, windowStart_of_row huser, hstart]
  have hafter : (step.exec cfg S env w).windowStart id = user'.windowStart := by
    rw [← hid', windowStart_of_row huser']
  by_cases hprepare : step.IsPrepare
  · by_cases hmem : user' ∈ w.tables.notificationSubscribers
    · -- the row has not moved, so no window was closed
      obtain rfl : user' = user :=
        List.inj_on_of_nodup_map w.unique.subscriberIds hmem huser (hid'.trans hid.symm)
      have hnone : (step.closings cfg S env w).filter (·.1 = id) = [] := by
        refine List.filter_eq_nil_iff.mpr fun closing hclosing heq => ?_
        obtain ⟨other, hother, hotherid, ⟨next, hother_next, hlow⟩, -, hadvanced⟩ :=
          mem_closings hclosing
        have hsame : other.advanced env.zones closing.2 = user' :=
          List.inj_on_of_nodup_map (step.exec cfg S env w).unique.subscriberIds hadvanced huser'
            (hotherid.trans ((of_decide_eq_true heq).trans hid'.symm))
        exact advanced_not_mem hother hother_next hlow (hsame ▸ hmem)
      refine ⟨start, start, hbefore, hafter.trans hstart, ?_⟩
      rw [NotificationStep.windows, hnone]
      rfl
    · obtain ⟨moved, hmoved, next, stop, hmoved_next, hlow, -, rfl⟩ :=
        (moved_of_prepare hprepare huser').resolve_left hmem
      obtain rfl : moved = user :=
        List.inj_on_of_nodup_map w.unique.subscriberIds hmoved huser (hid'.trans hid.symm)
      obtain rfl := Option.some_inj.mp (hnext.symm.trans hmoved_next)
      have hclosing := closing_of_moved hprepare huser' hmem rfl
      have hone := filter_key_eq (closing_ids_nodup w step) hclosing
      rw [hid'] at hone
      refine ⟨start, stop, hbefore, hafter, ?_⟩
      rw [NotificationStep.windows, hone]
      simp only [List.filterMap_cons, List.filterMap_nil, hbefore, Option.map_some]
      exact ⟨rfl, hle.trans hlow, rfl⟩
  · have hnone : step.closings cfg S env w = [] := by
      cases step with
      | prepare => exact absurd trivial hprepare
      | _ => rfl
    have hsame := hchange.windowStart_eq huser hprepare (hid ▸ haddress) hrecap
      (hon'.recapOn huser' hid')
    refine ⟨start, start, hbefore, hafter.trans (hsame.trans hstart), ?_⟩
    rw [NotificationStep.windows, hnone]
    rfl

/-- **A run** closes windows that lie end to end while the recap stays on. -/
theorem World.Subscribed.tiles (h : w.Subscribed cfg S env id steps) (hopen : w.WindowsOpen) :
    ∃ start stop, w.windowStart id = some start ∧
      (w.run cfg S env steps).windowStart id = some stop ∧
      Tiles start (w.windows cfg S env id steps) stop := by
  induction steps generalizing w with
  | nil =>
    have hon : w.StaysOn id := h.2
    obtain ⟨user, huser, hid, -, -, hrecap⟩ := hon
    obtain ⟨start, -, hstart, -⟩ := hopen user huser hrecap
    have hwindow : w.windowStart id = some start := by
      rw [← hid, windowStart_of_row huser, hstart]
    exact ⟨start, start, hwindow, hwindow, rfl⟩
  | cons step steps ih =>
    obtain ⟨⟨⟨hon, haddress⟩, halong⟩, hend⟩ := h
    have htail : (step.exec cfg S env w).Subscribed cfg S env id steps := ⟨halong, hend⟩
    have hon' : (step.exec cfg S env w).StaysOn id := by
      cases steps with
      | nil => exact hend
      | cons next steps => exact halong.1.1
    obtain ⟨start, middle, hstart, hmiddle, hfirst⟩ := tiles_exec hopen hon hon' haddress
    obtain ⟨middle', stop, hmiddle', hstop, hrest⟩ := ih htail (hopen.exec cfg S env step)
    obtain rfl := Option.some_inj.mp (hmiddle.symm.trans hmiddle')
    exact ⟨start, stop, hstart, hstop, hfirst.append hrest⟩

/-- **Recap cutoffs.** In zones where 20:00 comes once on every date, the next cutoff is the least
later instant of 20:00, the loop stops at the last one that is due, and the windows of a subscriber
lie end to end in every run in which its recap stays on. -/
theorem recap_cutoffs (cfg : Config) (S : Services) (env : NotificationEnv) (zones : Str → Zone)
    (hzones : ∀ name, (zones name).EveningsOnce) (henv : env.zones = .ofZones zones hzones) :
    (∀ name t, IsLeast {cutoff | t < cutoff ∧ (zones name).IsCutoff cutoff}
      (nextCutoff env.zones t name)) ∧
      (∀ name now nextRecap, nextRecap ≤ now →
        CatchUp env.zones name now nextRecap (windowEnd env.zones name now nextRecap) ∧
          IsGreatest {stop | (stop = nextRecap ∨ (zones name).IsCutoff stop) ∧
            nextRecap ≤ stop ∧ stop ≤ now} (windowEnd env.zones name now nextRecap)) ∧
      ∀ before during id, (World.empty.run cfg S env before).Subscribed cfg S env id during →
        ∃ start stop, (World.empty.run cfg S env before).windowStart id = some start ∧
          ((World.empty.run cfg S env before).run cfg S env during).windowStart id = some stop ∧
          Tiles start ((World.empty.run cfg S env before).windows cfg S env id during) stop := by
  refine ⟨fun name t => ?_, fun name now nextRecap hdue => ?_, fun before during id h => ?_⟩
  · rw [henv]
    exact nextCutoff_isLeast name t
  · refine ⟨catchUp_windowEnd env.zones name hdue, ?_⟩
    rw [henv]
    exact windowEnd_isGreatest name hdue
  · exact h.tiles (windows_open cfg S env before).1

/-- New York in 2026, from New Year's Day on. -/
def newYork : Zone where
  offset := hours (-5)
  changes := [(days 66 + hours 7, hours (-4)), (days 304 + hours 6, hours (-5))]
  steady := ⟨by decide, by decide, by decide, trivial⟩

theorem newYork_evenings : newYork.EveningsOnce := by
  intro date
  refine Zone.once_iff.mpr ?_
  have hday : days 1 = 86400000000 := rfl
  have hhour : hours 20 = 72000000000 := rfl
  have hspring : days 66 + hours 7 = 5727600000000 := rfl
  have hautumn : days 304 + hours 6 = 26287200000000 := rfl
  have hstandard : hours (-5) = -18000000000 := rfl
  have hsummer : hours (-4) = -14400000000 := rfl
  unfold newYork
  simp only [Clear, hday, hhour, hspring, hautumn, hstandard, hsummer]
  refine ⟨?_, ?_, trivial⟩ <;> omega

/-- The environment of a subscriber in New York. -/
def newYorkEnv : NotificationEnv :=
  { NotificationEnv.plain with zones := .ofZones (fun _ => newYork) fun _ => newYork_evenings }

/-- The recap is turned on an hour into the day on which the clock is set forward. -/
def springStart : List NotificationStep := .tick (days 66 + hours 1) :: recapOn

/-- The evening of the day is prepared on its own, and the next two together. -/
def springEvenings : List NotificationStep :=
  preparedAt (days 67 + hours 1) "first" ++ preparedAt (days 69) "second"

/-- The evening after the clock is set forward is that of the next date, and the windows of the days
around it lie end to end. -/
theorem spring_cutoff :
    IsLeast {cutoff | days 66 + hours 1 < cutoff ∧ newYork.IsCutoff cutoff} (days 67) ∧
      let w := World.empty.run sampleConfig .ascii newYorkEnv springStart
      w.windows sampleConfig .ascii newYorkEnv "ada".toList springEvenings =
          [(days 66 + hours 1, days 67), (days 67, days 69)] ∧
        ∃ start stop, w.windowStart "ada".toList = some start ∧
          (w.run sampleConfig .ascii newYorkEnv springEvenings).windowStart "ada".toList =
            some stop ∧
          Tiles start [(days 66 + hours 1, days 67), (days 67, days 69)] stop := by
  obtain ⟨hleast, -, htiles⟩ := recap_cutoffs sampleConfig .ascii newYorkEnv (fun _ => newYork)
    (fun _ => newYork_evenings) rfl
  have hcutoff : nextCutoff newYorkEnv.zones (days 66 + hours 1) [] = days 67 := by decide
  have hwindows : (World.empty.run sampleConfig .ascii newYorkEnv springStart).windows
      sampleConfig .ascii newYorkEnv "ada".toList springEvenings =
        [(days 66 + hours 1, days 67), (days 67, days 69)] := by decide +kernel
  refine ⟨hcutoff ▸ hleast [] (days 66 + hours 1), hwindows, ?_⟩
  rw [← hwindows]
  exact htiles springStart springEvenings "ada".toList (by unfold World.Subscribed; decide +kernel)

end JobPing
