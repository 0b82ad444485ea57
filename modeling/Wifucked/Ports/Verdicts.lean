import Wifucked.Ports.Tracking

/-!
# Verdicts are about the port as it is

Where no port is unplugged before its pipeline is done with, the beginning of a
pipeline, all its calls, and the outcome that comes of them fall into one time of
its port.
-/

namespace Wifucked

variable {K : Type}

-- ---------------------------------------------------------------------------
-- The time a pipeline is about
-- ---------------------------------------------------------------------------

def Thread.serves (t : Thread K) : Bool :=
  t.stage = .writing || t.stage = .addressing || t.stage = .reloading

/-- The lease was attempted while the port was plugged in for that time, and
where the attempt did not end the pipeline, so was the listening done. -/
def Thread.RanIn (t : Thread K) (p : ℕ) : Prop :=
  t.attempted = some (some p) ∧ (t.listened = some (some p) ∨
    t.listened = none ∧ (t.stage = .ended .leased ∨ t.stage = .ended .raised))

namespace Appliance

/-- There is one pipeline for a port, and it calls `start_server` and is
applied in the very time of its port in which it was begun, and its attempt and its
listening were made. -/
structure Current [Field K] [LinearOrder K] [FloorRing K] [HalfPow K] (s : Appliance K)
    (e : Happening K) : Prop where
  single : ((s.step e).threads.map (·.id)).Nodup
  serving : ∀ k answer t, e = .call k answer → s.threads[k]? = some t → t.serves = true →
    ∃ p, s.period t.id = some p ∧ t.begun = some p ∧ t.attempted = some (some p) ∧
      t.listened = some (some p)
  applied : ∀ r o, e = .apply r → s.daemon.outcomes.head? = some o →
    ∃ t p, s.collected.head? = some t ∧ t.Outcome o ∧ s.period o.atomicId = some p ∧
      t.begun = some p ∧ t.RanIn p

def Undisturbed (s : Appliance K) (e : Happening K) : Prop :=
  match e with
  | .unplug id => ∀ t ∈ s.live, t.id ≠ id
  | .submit => ∀ c, s.daemon.lanOutClassifier = some c →
      ∀ a ∈ s.daemon.registry.all, c.starts a = true → (s.period a.id).isSome
  | _ => True

end Appliance

def Thread.Within (t : Thread K) (p : ℕ) : Prop :=
  match t.stage with
  | .leasing => t.listened = none
  | .listening => t.attempted = some (some p) ∧ t.listened = none
  | .writing | .addressing | .reloading =>
    t.attempted = some (some p) ∧ t.listened = some (some p)
  | .ended _ => t.RanIn p

theorem Thread.Called.within {t t' : Thread K} {p : ℕ} (h : t.Within p)
    (hc : t.Called gateway (some p) host answer host' t') : t'.Within p := by
  cases hc with
  | idle => exact h
  | lease hs =>
    have hlistened : t.listened = none := by simpa [Within, hs] using h
    rcases hl : host.attemptClientLease t.ifname _ with error | _ | lease
    · simp [Within, leased, RanIn, hlistened]
    · simp [Within, leased, hlistened]
    · simp [Within, leased, RanIn, hlistened]
  | listen hs =>
    obtain ⟨hattempted, -⟩ : t.attempted = some (some p) ∧ t.listened = none := by
      simpa [Within, hs] using h
    rcases LinuxDhcp.passiveListenForForeignServer _ with error | _ | _
    · simp [Within, heard, RanIn, hattempted]
    · simp [Within, heard, hattempted]
    · simp [Within, heard, RanIn, hattempted]
  | @write ends hs =>
    have hran : t.attempted = some (some p) ∧ t.listened = some (some p) := by
      simpa [Within, hs] using h
    cases ends with
    | ok => simpa [Within, wrote] using hran
    | failed written => simp [Within, wrote, RanIn, hran]
  | @add ends hs =>
    have hran : t.attempted = some (some p) ∧ t.listened = some (some p) := by
      simpa [Within, hs] using h
    unfold added
    split
    · simp [Within, RanIn, hran]
    · simpa [Within] using hran
  | @reload ends hs =>
    have hran : t.attempted = some (some p) ∧ t.listened = some (some p) := by
      simpa [Within, hs] using h
    unfold reloaded
    split
    · simp [Within, RanIn, hran]
    · simp [Within, RanIn, hran]

namespace Appliance

variable {s : Appliance K}

/-- Every pipeline is about its port as it is plugged in now. -/
structure Timely (s : Appliance K) : Prop where
  tracks : s.Tracks
  within : ∀ t ∈ s.live, ∃ p, s.period t.id = some p ∧ t.begun = some p ∧ t.Within p

variable [Field K] [LinearOrder K] [FloorRing K] [HalfPow K]

theorem period_step (hj : s.period j = some p) {e : Happening K} (he : e ≠ .unplug j)
    (hr : ∀ r, e ≠ .reboot r) : (s.step e).period j = some p := by
  obtain ⟨q, hq, rfl⟩ := Option.map_eq_some_iff.mp hj
  by_cases hp : e.Plugs
  · cases e with
    | plug id ifname => exact congrArg (Option.map _) (get?_plug hq)
    | unplug id => exact congrArg (Option.map _) ((get?_unplug fun h => he (by rw [h])).trans hq)
    | rename id new =>
      simp only [step, period]
      rcases get?_rename s id new j with hr | ⟨-, hr⟩
      · rw [hr, hq]
        rfl
      · rw [hr, hq]
        rfl
    | reboot r => exact absurd rfl (hr r)
    | _ => cases hp
  · rw [period, plugged_step s hp, hq]
    rfl

theorem within_step (h : s.Timely) {e : Happening K} (he : s.Undisturbed e) :
    ∀ t ∈ (s.step e).live,
      ∃ p, (s.step e).period t.id = some p ∧ t.begun = some p ∧ t.Within p := by
  intro t ht
  have hreboot : ∀ r, e ≠ .reboot r := by
    rintro r rfl
    cases ht
  rcases mem_live_step ht with hlive | ⟨c, a, rfl, hf, hc, ha, hs, hat⟩ |
    ⟨k, answer, u, host, rfl, hk, hcall⟩
  · obtain ⟨p, hp, hbegun, hwithin⟩ := h.within t hlive
    have hunplug : e ≠ .unplug t.id := by
      rintro rfl
      exact he t hlive rfl
    exact ⟨p, period_step hp hunplug hreboot, hbegun, hwithin⟩
  · obtain ⟨rfl, hstage, hbegun, -, hlistened⟩ := Thread.of_start? hat
    obtain ⟨p, hp⟩ := Option.isSome_iff_exists.mp (he c hc _ ha hs)
    exact ⟨p, period_step hp nofun nofun, hbegun.trans hp,
      by simpa [Thread.Within, hstage] using hlistened⟩
  · obtain ⟨p, hp, hbegun, hwithin⟩ := h.within u (mem_live hk)
    rw [hp] at hcall
    rw [show t.id = u.id from congrArg Atomic.id hcall.atomic]
    exact ⟨p, period_step hp nofun nofun, hcall.begun_eq.trans hbegun, hcall.within hwithin⟩

theorem current_of_timely (h : s.Timely) {e : Happening K} : s.Current e := by
  refine ⟨(tracks_step h.tracks e).threads, fun k answer t _ hk hs => ?_, fun r o _ ho => ?_⟩
  · obtain ⟨p, hp, hbegun, hwithin⟩ := h.within t (mem_live hk)
    refine ⟨p, hp, hbegun, ?_⟩
    simp only [Thread.serves, Bool.or_eq_true, decide_eq_true_eq] at hs
    rcases hs with (hs | hs) | hs <;> simpa [Thread.Within, hs] using hwithin
  · obtain ⟨t, ht, hot⟩ := h.tracks.head ho
    have hlive : t ∈ s.live := List.mem_append_left _ (List.mem_of_mem_head? ht)
    obtain ⟨p, hp, hbegun, hwithin⟩ := h.within t hlive
    refine ⟨t, p, ht, hot, hot.atomicId ▸ hp, hbegun, ?_⟩
    obtain ⟨c, v, hs, -⟩ := hot
    simpa [Thread.Within, hs] using hwithin

/-- However ticks, calls and ports that come and go follow on each other. -/
theorem current_run (config : Config K) (file : Option (StateFile K)) (r : Reading K)
    {es : List (Happening K)} (hes : Runs.Along step Undisturbed (init config file r) es) :
    Runs.Along step Current (init config file r) es := by
  have hinit : (init config file r).Timely := ⟨tracks_init config file r, fun t ht => nomatch ht⟩
  refine Runs.along_of (fun s e h he => ?_) hinit hes
  exact ⟨⟨tracks_step h.tracks e, within_step h he⟩, current_of_timely h⟩

end Appliance

-- ---------------------------------------------------------------------------
-- A bare port
-- ---------------------------------------------------------------------------

def Answer.noLease : Answer := .lease ⟨⟨.shown (), .failed⟩, .timedOut, none, ⟨.shown (), .failed⟩⟩

def Answer.silence : Answer := .listen (.finished 124 "" "")

def Answer.reloaded (returncode : Int) : Answer := .reload ⟨.finished returncode "" "", true⟩

namespace Appliance

def dockPlugged : List (Happening ℚ) :=
  [.plug "usb:dock" "eth1", .act ⟨⟨0, 0⟩, .discover [dock true]⟩, .submit, .call 0 .noLease]

def serverStarts : List (Happening ℚ) :=
  [.call 0 .silence, .call 0 (.write .ok), .call 0 (.add ⟨true, false⟩), .call 0 (.reloaded 0),
    .harvest fun _ => true, .apply ⟨20, 20⟩]

def replug : List (Happening ℚ) := [.unplug "usb:dock", .plug "usb:dock" "eth1"]

theorem dockPlugged_undisturbed :
    Runs.Along step Undisturbed (init hotspot none ⟨0, 0⟩) (dockPlugged ++ serverStarts) := by
  have hplugged : ∀ a ∈ (Runs.exec step (init hotspot none ⟨0, 0⟩)
      (dockPlugged.take 2)).daemon.registry.all,
      ((Runs.exec step (init hotspot none ⟨0, 0⟩) (dockPlugged.take 2)).period a.id).isSome := by
    decide +kernel
  exact ⟨trivial, trivial, fun c _ a ha _ => hplugged a ha, trivial, trivial, trivial, trivial,
    trivial, trivial, trivial, trivial⟩

theorem current_dockPlugged :
    Runs.Along step Current (init hotspot none ⟨0, 0⟩) (dockPlugged ++ serverStarts) :=
  current_run hotspot none ⟨0, 0⟩ dockPlugged_undisturbed

/-- The adapter is moved to another socket after its lease attempt, and is
served by what was found before. -/
theorem served_after_replug :
    ((Runs.exec step (init hotspot none ⟨0, 0⟩)
        (dockPlugged ++ replug ++ serverStarts)).daemon.registry.get? "usb:dock").map (·.role) =
        some .lanOut ∧
      ¬ Runs.Along step Current (init hotspot none ⟨0, 0⟩)
        (dockPlugged ++ replug ++ serverStarts) := by
  refine ⟨by decide +kernel, fun h => ?_⟩
  obtain ⟨-, -, h, -⟩ := Runs.along_append.mp h
  have hthread : ((Runs.exec step (init hotspot none ⟨0, 0⟩)
      (dockPlugged ++ replug ++ serverStarts.take 1)).threads[0]?).map
      (fun t => (t.id, t.serves, t.attempted)) = some ("usb:dock", true, some (some 0)) := by
    decide +kernel
  have hperiod : (Runs.exec step (init hotspot none ⟨0, 0⟩)
      (dockPlugged ++ replug ++ serverStarts.take 1)).period "usb:dock" = some 1 := by
    decide +kernel
  obtain ⟨t, ht, hdata⟩ := Option.map_eq_some_iff.mp hthread
  obtain ⟨hid, hserves, hattempted⟩ : t.id = "usb:dock" ∧ t.serves = true ∧
      t.attempted = some (some 0) := by simpa using hdata
  obtain ⟨p, hp, -, hsame, -⟩ := h.serving 0 _ t rfl ht hserves
  have hp : some 1 = some p := hperiod.symm.trans (hid ▸ hp)
  rw [hattempted, ← hp] at hsame
  cases hsame

end Appliance

end Wifucked
