import Wifucked.Ports.Verdicts

/-!
# A replugged port is classified anew

The books forget a verdict when the port is seen back, but they write one down
for a pipeline that was still running then, and a port that has become LAN-out
is no candidate any more. Where neither happens, a new pipeline is started.
-/

namespace Wifucked

variable {K : Type}

def LanOutClassifier.sawPresent (c : LanOutClassifier K) (id : String) : Bool :=
  (c.wasPresent.get? id).any (·.2)

namespace Appliance

/-- A call of `consider` starts a pipeline for every good wired port that was
seen absent since its last one, unless one is in flight. -/
def Reclassifies [Field K] [LinearOrder K] [FloorRing K] [HalfPow K] (s : Appliance K)
    (e : Happening K) : Prop :=
  e = .submit → s.free = true → ∀ c, s.daemon.lanOutClassifier = some c →
    ∀ a ∈ s.daemon.registry.all, a.present = true → a.kind ∈ candidateKinds → a.health = .good →
      a.iface.isSome = true → a.id ∈ s.owed → (∀ t ∈ s.threads, t.id ≠ a.id) →
        ∃ t ∈ (s.step e).threads, t.id = a.id

/-- No call of `consider` sees such a port back while a pipeline for it is in
flight, or ready for a new one and still LAN-out. -/
def Forgotten (s : Appliance K) (e : Happening K) : Prop :=
  e = .submit → ∀ a ∈ s.daemon.registry.all, a.present = true → a.id ∈ s.owed →
    (∀ t ∈ s.threads, t.id ≠ a.id) ∧ (a.health = .good → a.iface.isSome = true → a.role = .wan)

/-- A verdict, or a pipeline, that is older than the last absence of its port
is one of a port not seen back yet. -/
structure Booked (s : Appliance K) : Prop where
  decided : ∀ c, s.daemon.lanOutClassifier = some c → ∀ id ∈ s.owed, id ∈ c.decided →
    c.sawPresent id = false
  flying : ∀ c, s.daemon.lanOutClassifier = some c → ∀ t ∈ s.threads, t.id ∈ s.owed →
    c.sawPresent t.id = false

-- ---------------------------------------------------------------------------
-- One turn of the loop
-- ---------------------------------------------------------------------------

theorem sawPresent_submit (c : LanOutClassifier K) (a : Atomic K) (id : String) :
    (c.submit a).sawPresent id = if a.id = id then a.present else c.sawPresent id := by
  unfold LanOutClassifier.sawPresent LanOutClassifier.submit
  rw [Keyed.get?_put]
  by_cases h : a.id = id <;> simp [h]

theorem decided_submit {c : LanOutClassifier K} {a : Atomic K} {id : String}
    (h : id ∈ (c.submit a).decided) :
    id ∈ c.decided ∧ (a.id = id → a.present = true → c.sawPresent id = true) := by
  simp only [LanOutClassifier.submit] at h
  split at h
  · obtain ⟨hd, hne⟩ : id ∈ c.decided ∧ id ≠ a.id := by simpa using h
    exact ⟨hd, fun he => absurd he.symm hne⟩
  · rename_i hsaw
    refine ⟨h, ?_⟩
    rintro rfl hpresent
    simpa [hpresent, LanOutClassifier.sawPresent] using hsaw

variable {s : Appliance K} {a : Atomic K}

theorem submitOne_on (hc : s.daemon.lanOutClassifier = some c) :
    (s.submitOne a).daemon.lanOutClassifier = some (c.submit a) ∧
      (∀ t ∈ (s.submitOne a).threads, t ∈ s.threads ∨ t.id = a.id ∧ c.starts a = true) ∧
      (∀ id ∈ (s.submitOne a).owed, id ∈ s.owed ∧ (id = a.id → c.starts a = false) ∨
        id = a.id ∧ a.present = false) := by
  have hone : s.submitOne a = { s with
      daemon := { s.daemon with lanOutClassifier := some (c.submit a) }
      threads :=
        if c.starts a then s.threads ++ (Thread.start? (s.period a.id) a).toList else s.threads
      owed :=
        if c.starts a then s.owed.filter (· ≠ a.id)
        else if !a.present && a.kind ∈ candidateKinds then a.id :: s.owed
        else s.owed } := by
    unfold submitOne
    rw [hc]
  rw [hone]
  refine ⟨rfl, fun t ht => ?_, fun id hid => ?_⟩
  · simp only at ht
    split at ht
    · rename_i hs
      rcases List.mem_append.mp ht with ht | ht
      · exact .inl ht
      · have hat := (Thread.of_start? (Option.mem_toList.mp ht)).1
        exact .inr ⟨congrArg Atomic.id hat, hs⟩
    · exact .inl ht
  · simp only at hid
    split at hid
    · obtain ⟨hid, hne⟩ : id ∈ s.owed ∧ id ≠ a.id := by simpa using hid
      exact .inl ⟨hid, fun h => absurd h hne⟩
    · rename_i hs
      have hs : c.starts a = false := Bool.eq_false_iff.mpr hs
      split at hid
      · rename_i habsent
        rcases List.mem_cons.mp hid with rfl | hid
        · refine .inr ⟨rfl, ?_⟩
          simp only [Bool.and_eq_true, Bool.not_eq_true'] at habsent
          exact habsent.1
        · exact .inl ⟨hid, fun _ => hs⟩
      · exact .inl ⟨hid, fun _ => hs⟩

theorem booked_submitOne (h : s.Booked)
    (ha : a.present = true → a.id ∈ s.owed → ∀ t ∈ s.threads, t.id ≠ a.id) :
    (s.submitOne a).Booked := by
  cases hc : s.daemon.lanOutClassifier with
  | none =>
    have hone : s.submitOne a = s := by
      unfold submitOne
      rw [hc]
    rw [hone]
    exact h
  | some c =>
    obtain ⟨hcls, hthreads, howed⟩ := submitOne_on (a := a) hc
    constructor
    · intro c' hc' id hid hd
      obtain rfl := Option.some.inj (hcls.symm.trans hc')
      obtain ⟨hd, hsaw⟩ := decided_submit hd
      rw [sawPresent_submit]
      rcases howed id hid with ⟨hid, -⟩ | ⟨rfl, habsent⟩
      · have hbefore := h.decided c hc id hid hd
        split
        · rename_i he
          cases hp : a.present with
          | false => rfl
          | true => rw [hsaw he hp] at hbefore; cases hbefore
        · exact hbefore
      · rw [if_pos rfl, habsent]
    · intro c' hc' t ht hid
      obtain rfl := Option.some.inj (hcls.symm.trans hc')
      rw [sawPresent_submit]
      rcases howed t.id hid with ⟨hid, hstarts⟩ | ⟨he, habsent⟩
      · rcases hthreads t ht with ht | ⟨he, hs⟩
        · split
          · rename_i he
            cases hp : a.present with
            | false => rfl
            | true => exact absurd he.symm (ha hp (he ▸ hid) t ht)
          · exact h.flying c hc t ht hid
        · rw [hstarts he] at hs
          cases hs
      · rw [if_pos he.symm, habsent]

theorem booked_submit (h : s.Booked) (he : s.Forgotten .submit) : s.submit.Booked := by
  have hids := s.daemon.registry.nodup_all
  have hback : ∀ a ∈ s.daemon.registry.all, a.present = true → a.id ∈ s.owed →
      ∀ t ∈ s.threads, t.id ≠ a.id := fun a ha hp hid => (he rfl a ha hp hid).1
  unfold submit
  clear he
  generalize s.daemon.registry.all = l at hids hback
  induction l generalizing s with
  | nil => exact h
  | cons a l ih =>
    obtain ⟨ha, hids⟩ := List.nodup_cons.mp hids
    obtain ⟨hfirst, hback⟩ := List.forall_mem_cons.mp hback
    refine ih (booked_submitOne h hfirst) hids fun b hb hp hid t ht => ?_
    have hne : b.id ≠ a.id := fun h => ha (List.mem_map.mpr ⟨b, hb, h⟩)
    cases hc : s.daemon.lanOutClassifier with
    | none =>
      have hone : s.submitOne a = s := by
        unfold submitOne
        rw [hc]
      rw [hone] at hid ht
      exact hback b hb hp hid t ht
    | some c =>
      obtain ⟨-, hthreads, howed⟩ := submitOne_on (a := a) hc
      rcases howed b.id hid with ⟨hid, -⟩ | ⟨he, -⟩
      · rcases hthreads t ht with ht | ⟨ht, -⟩
        · exact hback b hb hp hid t ht
        · exact fun h => hne (h.symm.trans ht)
      · exact absurd he hne

-- ---------------------------------------------------------------------------
-- Any step
-- ---------------------------------------------------------------------------

theorem booked_harvest (ht : s.Tracks) (h : s.Booked) (done : String → Bool) :
    (s.harvest done).Booked := by
  unfold harvest
  cases hc : s.daemon.lanOutClassifier with
  | none => exact h
  | some c =>
    constructor
    · rintro _ ⟨⟩ id hid hd
      have howed : id ∈ s.owed := hid
      rcases List.mem_append.mp hd with hd | hd
      · -- A pipeline whose port was seen absent since has not seen it back.
        obtain ⟨p, hp, rfl⟩ := List.mem_map.mp hd
        obtain ⟨a, ha, he⟩ := List.mem_filterMap.mp hp
        obtain ⟨e, -, rfl⟩ := Option.map_eq_some_iff.mp he
        rw [ht.inFlight c hc] at ha
        obtain ⟨t, hmem, rfl⟩ := List.mem_map.mp ha
        exact h.flying c hc t hmem howed
      · exact h.decided c hc id howed hd
    · rintro _ ⟨⟩ t hmem hid
      exact h.flying c hc t (List.mem_of_mem_filter hmem) hid

theorem booked_new (hc : ∀ c, s.daemon.lanOutClassifier = some c → c.decided = [])
    (ht : s.threads = []) : s.Booked := by
  refine ⟨fun c h id _ hd => ?_, fun c _ t hmem => ?_⟩
  · rw [hc c h] at hd
    cases hd
  · rw [ht] at hmem
    cases hmem

variable [Field K] [LinearOrder K]

theorem decided_init (config : Config K) (file : Option (StateFile K)) (r : Reading K) :
    ∀ c, (Daemon.init config file r).lanOutClassifier = some c → c.decided = [] := by
  intro c hc
  simp only [Daemon.init] at hc
  split at hc
  · obtain rfl := Option.some.inj hc
    rfl
  · cases hc

variable [FloorRing K] [HalfPow K]

theorem booked_step (ht : s.Tracks) (h : s.Booked) {e : Happening K} (he : s.Forgotten e) :
    (s.step e).Booked := by
  by_cases hp : e.Plugs
  · rcases ports_step s hp with ⟨r, rfl⟩ | ⟨plugged, periods, host, served, hs⟩
    · exact booked_new (decided_init s.daemon.config s.daemon.file r) rfl
    · rw [hs]
      exact ⟨h.decided, h.flying⟩
  · cases e with
    | act e =>
      simp only [step]
      split
      · rename_i hm
        obtain ⟨hc, -⟩ := Daemon.classifier_step s.daemon (not_classifies_of_may hm)
        exact ⟨fun c hc' => h.decided c (hc.symm.trans hc'),
          fun c hc' => h.flying c (hc.symm.trans hc')⟩
      · exact h
    | submit =>
      simp only [step]
      split
      · exact booked_submit h he
      · exact h
    | harvest done =>
      simp only [step]
      split
      · exact booked_harvest ht h done
      · exact h
    | apply r =>
      obtain ⟨hc, -⟩ := Daemon.classifier_applyOutcome s.daemon r
      exact ⟨fun c hc' => h.decided c (hc.symm.trans hc'),
        fun c hc' => h.flying c (hc.symm.trans hc')⟩
    | call k answer =>
      simp only [step]
      rcases call_inv s k answer with he | ⟨u, host, u', hk, hc, he⟩
      · rw [he]
        exact h
      · rw [he]
        refine ⟨h.decided, fun c hc' t hmem hid => ?_⟩
        rcases List.mem_or_eq_of_mem_set hmem with hmem | rfl
        · exact h.flying c hc' t hmem hid
        · have hsame : t.id = u.id := congrArg Atomic.id hc.atomic
          rw [hsame] at hid ⊢
          exact h.flying c hc' u (List.mem_of_getElem? hk) hid
    | restart r => exact booked_new (decided_init s.daemon.config s.daemon.file r) rfl
    | _ => exact absurd trivial hp

theorem reclassifies (ht : s.Tracks) (h : s.Booked) {e : Happening K} (he : s.Forgotten e) :
    s.Reclassifies e := by
  rintro rfl hf c hc a ha hpresent hkind hgood hiface howed hnone
  have hrole := (he rfl a ha hpresent howed).2 hgood hiface
  have hflight : c.inFlight.get? a.id = none := by
    cases hg : c.inFlight.get? a.id with
    | none => rfl
    | some b =>
      have hb := (Keyed.get?_eq_some.mp hg).1
      rw [ht.inFlight c hc] at hb
      obtain ⟨t, hmem, rfl⟩ := List.mem_map.mp hb
      exact absurd (Keyed.key_of_get? hg) (hnone t hmem)
  have hdecided : a.id ∉ (c.submit a).decided := by
    intro hd
    obtain ⟨hd, hsaw⟩ := decided_submit hd
    have hold := h.decided c hc a.id howed hd
    rw [hsaw rfl hpresent] at hold
    cases hold
  have hstarts : c.starts a = true := by
    simp [LanOutClassifier.starts, isCandidate, hpresent, hrole, hkind, hgood, hiface, hflight,
      hdecided]
  obtain ⟨t, hstart, rfl, -⟩ := Thread.start?_of_iface hiface (s.period a.id)
  refine ⟨t, ?_, rfl⟩
  simp only [step, hf, if_true, threads_submit hc]
  exact List.mem_append_right _
    (List.mem_filterMap.mpr ⟨_, List.mem_filter.mpr ⟨ha, hstarts⟩, hstart⟩)

/-- Over any sequence of presence, outcomes and restarts. -/
theorem reclassifies_run (config : Config K) (file : Option (StateFile K)) (r : Reading K)
    {es : List (Happening K)} (hes : Runs.Along step Forgotten (init config file r) es) :
    Runs.Along step Reclassifies (init config file r) es := by
  have hstep : ∀ (s : Appliance K) (e : Happening K), s.Tracks ∧ s.Booked → s.Forgotten e →
      ((s.step e).Tracks ∧ (s.step e).Booked) ∧ s.Reclassifies e := fun s e h he =>
    ⟨⟨tracks_step h.1 e, booked_step h.1 h.2 he⟩, reclassifies h.1 h.2 he⟩
  exact Runs.along_of hstep
    ⟨tracks_init config file r, booked_new (decided_init config file r) rfl⟩ hes

def offered (ip : String) : Answer :=
  .lease ⟨⟨.shown (), .failed⟩, .finished 0 "" "", some ip, ⟨.shown (), .failed⟩⟩

def leases : List (Happening ℚ) :=
  [.plug "usb:dock" "eth1", .act ⟨⟨0, 0⟩, .discover [dock true]⟩, .submit,
    .call 0 (offered "192.168.1.7"), .harvest fun _ => true, .apply ⟨20, 20⟩]

/-- The adapter is moved, and both its absence and its return are seen. -/
def moved : List (Happening ℚ) :=
  [.unplug "usb:dock", .act ⟨⟨60, 60⟩, .discover []⟩, .submit, .plug "usb:dock" "eth1",
    .act ⟨⟨70, 70⟩, .discover [dock true]⟩]

theorem leases_forgotten :
    Runs.Along step Forgotten (init hotspot none ⟨0, 0⟩) (leases ++ moved ++ [.submit]) := by
  refine ⟨nofun, nofun, fun _ => ?_, nofun, nofun, nofun, nofun, nofun, fun _ => ?_, nofun, nofun,
    fun _ => ?_, trivial⟩
  · decide +kernel
  · decide +kernel
  · decide +kernel

theorem reclassifies_leases :
    Runs.Along step Reclassifies (init hotspot none ⟨0, 0⟩) (leases ++ moved ++ [.submit]) :=
  reclassifies_run hotspot none ⟨0, 0⟩ leases_forgotten

/-- A server is started on the adapter, which is then moved to a live network
and keeps its first answer. -/
theorem keeps_first_answer :
    ¬ Runs.Along step Reclassifies (init hotspot none ⟨0, 0⟩)
      (dockPlugged ++ serverStarts ++ moved ++ [.submit]) := by
  intro h
  obtain ⟨-, h, -⟩ := Runs.along_append.mp h
  have hback : ∃ a ∈ (Runs.exec step (init hotspot none ⟨0, 0⟩)
      (dockPlugged ++ serverStarts ++ moved)).daemon.registry.all,
      a.present = true ∧ a.kind ∈ candidateKinds ∧ a.health = .good ∧ a.iface.isSome = true ∧
        a.id ∈ (Runs.exec step (init hotspot none ⟨0, 0⟩)
          (dockPlugged ++ serverStarts ++ moved)).owed := by decide +kernel
  have hbefore : (Runs.exec step (init hotspot none ⟨0, 0⟩)
      (dockPlugged ++ serverStarts ++ moved)).threads.map (·.id) = [] := by decide +kernel
  have hafter : (Runs.exec step (init hotspot none ⟨0, 0⟩)
      (dockPlugged ++ serverStarts ++ moved ++ [.submit])).threads.map (·.id) = [] := by
    decide +kernel
  obtain ⟨a, ha, hpresent, hkind, hgood, hiface, howed⟩ := hback
  obtain ⟨c, hc⟩ := Option.isSome_iff_exists.mp (show (Runs.exec step (init hotspot none ⟨0, 0⟩)
    (dockPlugged ++ serverStarts ++ moved)).daemon.lanOutClassifier.isSome by decide +kernel)
  obtain ⟨t, ht, -⟩ := h rfl (by decide +kernel) c hc a ha hpresent hkind hgood hiface howed
    fun t ht => by
      rw [List.map_eq_nil_iff.mp hbefore] at ht
      cases ht
  rw [Runs.exec_append] at hafter
  have hafter := List.map_eq_nil_iff.mp hafter
  have ht : t ∈ (Runs.exec step (Runs.exec step (init hotspot none ⟨0, 0⟩)
      (dockPlugged ++ serverStarts ++ moved)) [.submit]).threads := ht
  rw [hafter] at ht
  cases ht

end Appliance

end Wifucked
