import Wifucked.Daemon.Modes
import Wifucked.Ports

/-!
# The classifier's books and the threads they are about

What is in flight by the books is what runs on threads, one for each port, and
every outcome that waits to be applied is that of a thread which has ended.
-/

namespace Wifucked

variable {K : Type}

-- ---------------------------------------------------------------------------
-- What the other actions leave alone
-- ---------------------------------------------------------------------------

def Event.classifies (e : Event K) : Bool :=
  match e.action with
  | .consider _ | .applyOutcome | .restart => true
  | _ => false

namespace Daemon

variable [Field K] [LinearOrder K]

theorem persist_classifier (d : Daemon K) (r : Reading K) :
    (d.persist r).lanOutClassifier = d.lanOutClassifier ∧ (d.persist r).config = d.config := by
  unfold persist
  split <;> exact ⟨rfl, rfl⟩

theorem classifier_applyOutcome (d : Daemon K) (r : Reading K) :
    (d.applyOutcome r).lanOutClassifier = d.lanOutClassifier ∧
      (d.applyOutcome r).outcomes = d.outcomes.tail ∧ (d.applyOutcome r).config = d.config := by
  unfold applyOutcome
  cases ho : d.outcomes with
  | nil => exact ⟨rfl, ho, rfl⟩
  | cons o outcomes =>
    simp only [setRoleAndMode]
    split
    · exact ⟨rfl, rfl, rfl⟩
    · exact ⟨(persist_classifier _ r).1, outcomes_persist _ r, (persist_classifier _ r).2⟩

variable [FloorRing K] [HalfPow K]

theorem classifier_step (d : Daemon K) {e : Event K} (he : e.classifies = false) :
    (d.step e).lanOutClassifier = d.lanOutClassifier ∧ (d.step e).outcomes = d.outcomes ∧
      (d.step e).config = d.config := by
  obtain ⟨r, action⟩ := e
  cases action with
  | consider p => cases he
  | applyOutcome => cases he
  | restart => cases he
  | discover | measure | decide => exact ⟨rfl, rfl, rfl⟩
  | spend a =>
    simp only [step, spendOn]
    split <;> exact ⟨rfl, rfl, rfl⟩
  | fast env =>
    refine ⟨?_, outcomes_fastLoop d env, (fastLoop_frame d env).2.2.1⟩
    simp only [step, fastLoop, bindTunnel]
    split
    · rfl
    · split
      · rfl
      · split
        · rfl
        · split <;> rfl
  | persist => exact ⟨(persist_classifier d r).1, outcomes_persist d r, (persist_classifier d r).2⟩
  | setMode id mode =>
    refine ⟨?_, outcomes_setMode d r id mode, ?_⟩
    · simp only [step, setMode]
      split
      · rfl
      · exact (persist_classifier _ r).1
    · simp only [step, setMode]
      split
      · rfl
      · exact (persist_classifier _ r).2

end Daemon

theorem map_set_of_eq {α β : Type} {f : α → β} {l : List α} {k : ℕ} {a b : α}
    (h : l[k]? = some a) (hf : f b = f a) : (l.set k b).map f = l.map f := by
  induction l generalizing k with
  | nil => rfl
  | cons c l ih =>
    cases k with
    | zero =>
      obtain rfl : c = a := by simpa using h
      simp [hf]
    | succ k => simp [ih (by simpa using h)]

theorem forall₂_tail {α β : Type} {R : α → β → Prop} {l : List α} {m : List β}
    (h : List.Forall₂ R l m) : List.Forall₂ R l.tail m.tail := by
  cases h with
  | nil => exact .nil
  | cons _ h => exact h

namespace Thread

theorem start?_of_iface {a : Atomic K} (h : a.iface.isSome) (period : Option ℕ) :
    ∃ t, start? period a = some t ∧ t.atomic = a ∧ t.stage = .leasing ∧ t.attempted = none ∧
      t.listened = none := by
  unfold start?
  split
  · rename_i hn
    rw [hn] at h
    cases h
  · exact ⟨_, rfl, rfl, rfl, rfl, rfl⟩

theorem of_start? {period : Option ℕ} {a : Atomic K} {t : Thread K} (h : t ∈ start? period a) :
    t.atomic = a ∧ t.stage = .leasing ∧ t.begun = period ∧ t.attempted = none ∧
      t.listened = none := by
  unfold start? at h
  split at h
  · cases h
  · cases h
    exact ⟨rfl, rfl, rfl, rfl, rfl⟩

def Outcome (o : ClassificationOutcome) (t : Thread K) : Prop :=
  ∃ (c : LanOutClassifier K) (v : Verdict), t.stage = .ended v ∧ o = c.outcomeOf t.atomic v.toEnd

theorem Outcome.atomicId {t : Thread K} (h : Outcome o t) : o.atomicId = t.id := by
  obtain ⟨c, v, -, rfl⟩ := h
  exact c.outcome_atomicId ..

theorem Outcome.role {t : Thread K} (h : Outcome o t) :
    o.role = .lanOut ↔ t.stage = .ended (.served true) := by
  obtain ⟨c, v, hs, rfl⟩ := h
  rw [c.outcome_role, hs, Stage.ended.injEq]

end Thread

def Happening.Plugs (e : Happening K) : Prop :=
  match e with
  | .plug .. | .unplug _ | .rename .. | .reboot _ => True
  | _ => False

namespace Appliance

def live (s : Appliance K) : List (Thread K) := s.collected ++ s.threads

structure Tracks (s : Appliance K) : Prop where
  inFlight : ∀ c, s.daemon.lanOutClassifier = some c →
    c.inFlight.values = s.threads.map (·.atomic)
  outcomes : List.Forall₂ Thread.Outcome s.daemon.outcomes s.collected
  nodup : (s.live.map (·.id)).Nodup

theorem Tracks.collected_nil {s : Appliance K} (h : s.Tracks) (hf : s.free = true) :
    s.collected = [] := by
  have hlength := h.outcomes.length_eq
  rw [List.isEmpty_iff.mp hf] at hlength
  exact List.eq_nil_of_length_eq_zero hlength.symm

theorem Tracks.head {s : Appliance K} (h : s.Tracks) (ho : s.daemon.outcomes.head? = some o) :
    ∃ t, s.collected.head? = some t ∧ t.Outcome o := by
  have houtcomes := h.outcomes
  revert ho houtcomes
  cases s.daemon.outcomes with
  | nil => rintro ⟨⟩
  | cons o' outcomes =>
    rintro ⟨⟩ houtcomes
    cases hc : s.collected with
    | nil => rw [hc] at houtcomes; cases houtcomes
    | cons t collected =>
      rw [hc] at houtcomes
      cases houtcomes with
      | cons hot => exact ⟨t, rfl, hot⟩

-- ---------------------------------------------------------------------------
-- Submitting
-- ---------------------------------------------------------------------------

theorem submitOne_frame (s : Appliance K) (a : Atomic K) :
    (s.submitOne a).daemon.registry = s.daemon.registry ∧
      (s.submitOne a).daemon.file = s.daemon.file ∧
      (s.submitOne a).daemon.config = s.daemon.config ∧
      (s.submitOne a).daemon.outcomes = s.daemon.outcomes ∧
      (s.submitOne a).collected = s.collected ∧ (s.submitOne a).plugged = s.plugged ∧
      (s.submitOne a).periods = s.periods ∧ (s.submitOne a).host = s.host ∧
      (s.submitOne a).served = s.served := by
  unfold submitOne
  split <;> exact ⟨rfl, rfl, rfl, rfl, rfl, rfl, rfl, rfl, rfl⟩

theorem iface_of_starts {c : LanOutClassifier K} {a : Atomic K} (h : c.starts a = true) :
    a.iface.isSome ∧ c.inFlight.get? a.id = none := by
  simp only [LanOutClassifier.starts, isCandidate, Bool.and_eq_true, Option.isNone_iff_eq_none] at h
  exact ⟨h.1.1.2, h.2⟩

theorem tracks_submitOne {s : Appliance K} (h : s.Tracks) (hf : s.free = true) (a : Atomic K) :
    (s.submitOne a).Tracks := by
  have hcollected := h.collected_nil hf
  unfold submitOne
  cases hc : s.daemon.lanOutClassifier with
  | none => exact h
  | some c =>
    have hvalues := h.inFlight c hc
    have hbooks : (c.submit a).inFlight.values =
        (if c.starts a then s.threads ++ (Thread.start? (s.period a.id) a).toList
          else s.threads).map (·.atomic) := by
      rw [LanOutClassifier.inFlight_submit]
      split
      · rename_i hs
        obtain ⟨hiface, hnone⟩ := iface_of_starts hs
        obtain ⟨t, ht, rfl, -⟩ := Thread.start?_of_iface hiface (s.period a.id)
        rw [Keyed.values_put_of_none hnone, hvalues, ht]
        simp
      · exact hvalues
    refine ⟨?_, h.outcomes, ?_⟩
    · rintro _ ⟨⟩
      exact hbooks
    · -- Nothing waits to be applied, and the books have each port once.
      have hnodup := (c.submit a).inFlight.nodup
      rw [hbooks, List.map_map] at hnodup
      simpa [live, hcollected, Function.comp_def] using hnodup

theorem submit_keeps {P : Appliance K → Prop} {s : Appliance K} (hs : P s)
    (hstep : ∀ s, ∀ a ∈ s.daemon.registry.all, P s → P (s.submitOne a)) : P s.submit := by
  unfold submit
  generalize hl : s.daemon.registry.all = l
  have hsub : ∀ a ∈ l, a ∈ s.daemon.registry.all := fun a ha => hl ▸ ha
  clear hl
  induction l generalizing s with
  | nil => exact hs
  | cons a l ih =>
    obtain ⟨ha, hl⟩ := List.forall_mem_cons.mp hsub
    refine ih (hstep s a ha hs) fun b hb => ?_
    rw [(submitOne_frame s a).1]
    exact hl b hb

theorem submit_frame (s : Appliance K) :
    s.submit.daemon.registry = s.daemon.registry ∧ s.submit.daemon.file = s.daemon.file ∧
      s.submit.daemon.config = s.daemon.config ∧
      s.submit.daemon.outcomes = s.daemon.outcomes ∧ s.submit.collected = s.collected ∧
      s.submit.plugged = s.plugged ∧ s.submit.periods = s.periods ∧ s.submit.host = s.host ∧
      s.submit.served = s.served := by
  refine submit_keeps (P := fun u =>
    u.daemon.registry = s.daemon.registry ∧ u.daemon.file = s.daemon.file ∧
      u.daemon.config = s.daemon.config ∧ u.daemon.outcomes = s.daemon.outcomes ∧
      u.collected = s.collected ∧ u.plugged = s.plugged ∧ u.periods = s.periods ∧
      u.host = s.host ∧ u.served = s.served) ⟨rfl, rfl, rfl, rfl, rfl, rfl, rfl, rfl, rfl⟩ ?_
  rintro u a - ⟨h1, h2, h3, h4, h5, h6, h7, h8, h9⟩
  obtain ⟨f1, f2, f3, f4, f5, f6, f7, f8, f9⟩ := submitOne_frame u a
  exact ⟨f1.trans h1, f2.trans h2, f3.trans h3, f4.trans h4, f5.trans h5, f6.trans h6,
    f7.trans h7, f8.trans h8, f9.trans h9⟩

theorem starts_submit {c : LanOutClassifier K} {a b : Atomic K} (h : b.id ≠ a.id) :
    (c.submit b).starts a = c.starts a := by
  have hpresent : ((c.submit b).wasPresent.get? a.id) = c.wasPresent.get? a.id := by
    simp [LanOutClassifier.submit, Keyed.get?_put, h]
  have hdecided : a.id ∈ (c.submit b).decided ↔ a.id ∈ c.decided := by
    simp only [LanOutClassifier.submit]
    split
    · simp [Ne.symm h]
    · exact Iff.rfl
  have hflight : (c.submit b).inFlight.get? a.id = c.inFlight.get? a.id := by
    rw [LanOutClassifier.inFlight_submit]
    split
    · rw [Keyed.get?_put, if_neg h]
    · rfl
  have hturn : a.id ∈ ((c.submit b).submit a).decided ↔ a.id ∈ (c.submit a).decided := by
    rw [LanOutClassifier.submit, LanOutClassifier.submit.eq_def c a, hpresent]
    simp only
    split
    · simp
    · exact hdecided
  simp only [LanOutClassifier.starts, hflight, hturn]

/-- What the loop starts: a thread for each port that has one started by the
books it began with. -/
theorem threads_submit {s : Appliance K} (hc : s.daemon.lanOutClassifier = some c) :
    s.submit.threads =
      s.threads ++ (s.daemon.registry.all.filter c.starts).filterMap fun a =>
        Thread.start? (s.period a.id) a := by
  have hids := s.daemon.registry.nodup_all
  unfold submit
  generalize s.daemon.registry.all = l at hids
  induction l generalizing s c with
  | nil => simp
  | cons a l ih =>
    obtain ⟨ha, hids⟩ := List.nodup_cons.mp hids
    have hrest : l.filter (c.submit a).starts = l.filter c.starts := by
      refine List.filter_congr fun b hb => ?_
      exact starts_submit fun h => ha (List.mem_map.mpr ⟨b, hb, h.symm⟩)
    have hc' : (s.submitOne a).daemon.lanOutClassifier = some (c.submit a) := by
      unfold submitOne
      rw [hc]
    have hthreads : (s.submitOne a).threads =
        if c.starts a then s.threads ++ (Thread.start? (s.period a.id) a).toList
        else s.threads := by
      unfold submitOne
      rw [hc]
    have hperiod : (s.submitOne a).period = s.period := by
      unfold period
      rw [(submitOne_frame s a).2.2.2.2.2.1]
    rw [List.foldl_cons, ih hc' hids, hrest, hthreads, hperiod, List.filter_cons]
    split
    · cases hs : Thread.start? (s.period a.id) a with
      | none => simp [hs]
      | some t => simp [hs]
    · rfl

theorem submit_off {s : Appliance K} (hc : s.daemon.lanOutClassifier = none) : s.submit = s := by
  have hone : ∀ a, s.submitOne a = s := by
    intro a
    unfold submitOne
    rw [hc]
  unfold submit
  induction s.daemon.registry.all with
  | nil => rfl
  | cons a l ih => rw [List.foldl_cons, hone, ih]

/-- Submitting and collecting are the call of `consider`. -/
theorem consider_eq (s : Appliance K) (done : String → Bool) :
    (s.submit.harvest done).daemon =
      s.daemon.considerPorts fun id => (s.submit.ended done id).map (·.toEnd) := by
  have hfold : ∀ (l : List (Atomic K)) (u : Appliance K) (c : LanOutClassifier K),
      u.daemon.lanOutClassifier = some c → (l.foldl submitOne u).daemon =
        { u.daemon with lanOutClassifier := some (l.foldl LanOutClassifier.submit c) } := by
    intro l
    induction l with
    | nil =>
      intro u c hc
      simp [← hc]
    | cons a l ih =>
      intro u c hc
      have hone : (u.submitOne a).daemon =
          { u.daemon with lanOutClassifier := some (c.submit a) } := by
        unfold submitOne
        rw [hc]
      rw [List.foldl_cons, ih _ (c.submit a) (by rw [hone]), hone, List.foldl_cons]
  cases hc : s.daemon.lanOutClassifier with
  | none =>
    rw [submit_off hc]
    simp [harvest, Daemon.considerPorts, hc]
  | some c =>
    have hsubmit : s.submit.daemon = { s.daemon with
        lanOutClassifier := some (s.daemon.registry.all.foldl LanOutClassifier.submit c) } :=
      hfold s.daemon.registry.all s c hc
    unfold harvest Daemon.considerPorts LanOutClassifier.consider
    simp only [hsubmit, hc]

theorem tracks_submit {s : Appliance K} (h : s.Tracks) (hf : s.free = true) : s.submit.Tracks := by
  refine (submit_keeps (P := fun u => u.Tracks ∧ u.free = true) ⟨h, hf⟩ ?_).1
  rintro u a - ⟨h, hf⟩
  refine ⟨tracks_submitOne h hf a, ?_⟩
  unfold free
  rw [(submitOne_frame u a).2.2.2.1]
  exact hf

-- ---------------------------------------------------------------------------
-- Collecting
-- ---------------------------------------------------------------------------

theorem ended_of_mem {s : Appliance K} (hn : (s.threads.map (·.id)).Nodup) {t : Thread K}
    (ht : t ∈ s.threads) (done : String → Bool) :
    s.ended done t.id = if done t.id then t.verdict else none := by
  have hfind : (s.threads.find? fun u => u.id = t.id) = some t := by
    cases hf : s.threads.find? fun u => u.id = t.id with
    | none =>
      have hne := List.find?_eq_none.mp hf t ht
      simp at hne
    | some u =>
      have hid : u.id = t.id := by simpa using List.find?_some hf
      rw [List.inj_on_of_nodup_map hn (List.mem_of_find?_eq_some hf) ht hid]
  unfold ended
  rw [hfind]
  rfl

theorem stage_of_ended {s : Appliance K} (hn : (s.threads.map (·.id)).Nodup) {t : Thread K}
    (ht : t ∈ s.threads) {done : String → Bool} (h : s.ended done t.id = some v) :
    t.stage = .ended v := by
  rw [ended_of_mem hn ht] at h
  split at h
  · unfold Thread.verdict at h
    split at h
    · rename_i hs
      obtain rfl := Option.some.inj h
      exact hs
    · cases h
  · cases h

theorem outcomes_of_ended {l : List (Thread K)} {f : String → Option Verdict}
    (hf : ∀ t ∈ l, ∀ v, f t.id = some v → t.stage = .ended v) (c : LanOutClassifier K) :
    List.Forall₂ Thread.Outcome
      (((l.map (·.atomic)).filterMap fun a => ((f a.id).map (·.toEnd)).map fun e => (a, e)).map
        fun o => c.outcomeOf o.1 o.2)
      (l.filter fun t => (f t.id).isSome) := by
  induction l with
  | nil => exact .nil
  | cons t l ih =>
    obtain ⟨ht, hf⟩ := List.forall_mem_cons.mp hf
    rw [List.map_cons, List.filterMap_cons, List.filter_cons]
    cases hv : f t.id with
    | none => simpa [hv] using ih hf
    | some v =>
      simp only [Option.map_some, List.map_cons, Option.isSome_some, if_true]
      exact .cons ⟨c, v, ht v hv, rfl⟩ (ih hf)

theorem Tracks.threads {s : Appliance K} (h : s.Tracks) : (s.threads.map (·.id)).Nodup := by
  have hnodup := h.nodup
  rw [live, List.map_append] at hnodup
  exact (List.nodup_append.mp hnodup).2.1

theorem perm_harvest (s : Appliance K) (done : String → Bool) :
    (s.harvest done).live.Perm s.live := by
  unfold harvest
  cases s.daemon.lanOutClassifier with
  | none => exact .refl _
  | some c =>
    have hsplit := List.filter_append_perm (fun t => (s.ended done t.id).isSome) s.threads
    simp only [live, List.append_assoc]
    refine List.Perm.append_left _ ((List.Perm.of_eq ?_).trans hsplit)
    simp

theorem tracks_harvest {s : Appliance K} (h : s.Tracks) (done : String → Bool) :
    (s.harvest done).Tracks := by
  have hnodup := ((perm_harvest s done).map (·.id)).nodup_iff.mpr h.nodup
  revert hnodup
  unfold harvest
  cases hc : s.daemon.lanOutClassifier with
  | none => exact fun _ => h
  | some c =>
    intro hnodup
    refine ⟨?_, ?_, hnodup⟩
    · rintro _ ⟨⟩
      simp only [Keyed.filter, h.inFlight c hc, List.filter_map,
        Function.comp_def, Option.isNone_map]
    · refine List.rel_append h.outcomes ?_
      simp only [LanOutClassifier.harvest, h.inFlight c hc]
      exact outcomes_of_ended (fun t ht v => stage_of_ended h.threads ht) c

-- ---------------------------------------------------------------------------
-- Any step
-- ---------------------------------------------------------------------------

theorem get?_plug {s : Appliance K} {id ifname : String} (h : s.plugged.get? j = some p) :
    (s.plug id ifname).plugged.get? j = some p := by
  unfold plug
  split
  · exact h
  · rename_i hnew
    refine (Keyed.get?_put ..).trans ?_
    split
    · -- A port that is plugged in is not plugged in anew.
      rename_i hj
      obtain rfl : id = j := hj
      exact absurd (.inl (by rw [h]; rfl)) hnew
    · exact h

theorem get?_unplug {s : Appliance K} {id : String} (hid : j ≠ id) :
    (s.unplug id).plugged.get? j = s.plugged.get? j := by
  unfold unplug
  split
  · rfl
  · rw [Keyed.get?_filter]
    cases hj : s.plugged.get? j with
    | none => rfl
    | some q => simp [Option.filter, Keyed.key_of_get? hj, hid]

theorem get?_rename (s : Appliance K) (id new j : String) :
    (s.rename id new).plugged.get? j = s.plugged.get? j ∨
      j = id ∧ (s.rename id new).plugged.get? j =
        (s.plugged.get? j).map fun p => { p with ifname := new } := by
  unfold rename
  split
  · exact .inl rfl
  · split
    · exact .inl rfl
    · rw [Keyed.get?_modify]
      · split
        · rename_i hj
          exact .inr ⟨hj, by rw [hj]⟩
        · exact .inl rfl
      · exact fun _ => rfl

theorem mem_live {s : Appliance K} {k : ℕ} {t : Thread K} (h : s.threads[k]? = some t) :
    t ∈ s.live :=
  List.mem_append_right _ (List.mem_of_getElem? h)

theorem mem_live_set {s : Appliance K} {k : ℕ} {t : Thread K} (h : s.threads[k]? = some t)
    (u : Thread K) : u ∈ s.collected ++ s.threads.set k u :=
  List.mem_append_right _ (List.mem_set (List.getElem?_eq_some_iff.mp h).1 u)

theorem call_inv (s : Appliance K) (k : ℕ) (answer : Answer) :
    s.call k answer = s ∨ ∃ t h t', s.threads[k]? = some t ∧
      t.Called (s.gateway t.id) (s.period t.id) s.host answer h t' ∧
      s.call k answer = { s with
        threads := s.threads.set k t'
        host := h
        served :=
          if t.stage = .reloading ∧ t'.stage = .ended (.served true) then t.ifname :: s.served
          else s.served } := by
  unfold call
  cases hk : s.threads[k]? with
  | none => exact .inl rfl
  | some t => exact .inr ⟨t, _, _, rfl, Thread.advance_called .., rfl⟩

theorem tracks_call {s : Appliance K} (h : s.Tracks) (k : ℕ) (answer : Answer) :
    (s.call k answer).Tracks := by
  rcases call_inv s k answer with he | ⟨t, host, t', hk, hc, he⟩
  · rw [he]
    exact h
  · have hatomic := map_set_of_eq (f := Thread.atomic) hk hc.atomic
    have hid := map_set_of_eq (f := Thread.id) hk (congrArg Atomic.id hc.atomic)
    rw [he]
    refine ⟨fun c hc => (h.inFlight c hc).trans hatomic.symm, h.outcomes, ?_⟩
    have hnodup := h.nodup
    simp only [live, List.map_append] at hnodup ⊢
    rwa [hid]

theorem tracks_idle {s : Appliance K} (hc : ∀ c, s.daemon.lanOutClassifier = some c →
    c.inFlight = .empty) (ho : s.daemon.outcomes = []) (ht : s.threads = [])
    (hw : s.collected = []) : s.Tracks := by
  refine ⟨fun c h => ?_, ?_, ?_⟩
  · rw [hc c h, ht]
    rfl
  · rw [ho, hw]
    exact .nil
  · rw [live, ht, hw]
    exact .nil

theorem not_classifies_of_may {s : Appliance K} {e : Event K} (h : s.may e = true) :
    e.classifies = false := by
  obtain ⟨r, action⟩ := e
  cases action with
  | consider p => cases h
  | applyOutcome => cases h
  | restart => cases h
  | _ => rfl

variable [Field K] [LinearOrder K]

theorem idle_init (config : Config K) (file : Option (StateFile K)) (r : Reading K) :
    (∀ c, (Daemon.init config file r).lanOutClassifier = some c → c.inFlight = .empty) ∧
      (Daemon.init config file r).outcomes = [] := by
  refine ⟨fun c hc => ?_, rfl⟩
  simp only [Daemon.init] at hc
  split at hc
  · obtain rfl := Option.some.inj hc
    rfl
  · cases hc

theorem tracks_init (config : Config K) (file : Option (StateFile K)) (r : Reading K) :
    (init config file r).Tracks :=
  tracks_idle (idle_init config file r).1 rfl rfl rfl

variable [FloorRing K] [HalfPow K]

theorem ports_step (s : Appliance K) {e : Happening K} (he : e.Plugs) :
    (∃ r, e = .reboot r) ∨ ∃ plugged periods host served,
      s.step e = { s with plugged, periods, host, served } := by
  cases e with
  | plug id ifname =>
    simp only [step, plug]
    split
    · exact .inr ⟨_, _, _, _, rfl⟩
    · exact .inr ⟨_, _, _, _, rfl⟩
  | unplug id =>
    simp only [step, unplug]
    split
    · exact .inr ⟨_, _, _, _, rfl⟩
    · exact .inr ⟨_, _, _, _, rfl⟩
  | rename id new =>
    simp only [step, rename]
    split
    · exact .inr ⟨_, _, _, _, rfl⟩
    · split
      · exact .inr ⟨_, _, _, _, rfl⟩
      · exact .inr ⟨_, _, _, _, rfl⟩
  | reboot r => exact .inl ⟨r, rfl⟩
  | _ => cases he

theorem tracks_step {s : Appliance K} (h : s.Tracks) (e : Happening K) : (s.step e).Tracks := by
  by_cases hp : e.Plugs
  · rcases ports_step s hp with ⟨r, rfl⟩ | ⟨plugged, periods, host, served, he⟩
    · exact tracks_idle (idle_init s.daemon.config s.daemon.file r).1 rfl rfl rfl
    · rw [he]
      exact ⟨h.inFlight, h.outcomes, h.nodup⟩
  · cases e with
    | act e =>
      simp only [step]
      split
      · rename_i hm
        obtain ⟨hc, ho, -⟩ := Daemon.classifier_step s.daemon (not_classifies_of_may hm)
        exact ⟨fun c hc' => h.inFlight c (hc.symm.trans hc'), ho ▸ h.outcomes, h.nodup⟩
      · exact h
    | submit =>
      simp only [step]
      split
      · rename_i hf; exact tracks_submit h hf
      · exact h
    | harvest done =>
      simp only [step]
      split
      · exact tracks_harvest h done
      · exact h
    | apply r =>
      obtain ⟨hc, ho, -⟩ := Daemon.classifier_applyOutcome s.daemon r
      refine ⟨fun c hc' => h.inFlight c (hc.symm.trans hc'), ?_, ?_⟩
      · simp only [step, ho]
        exact forall₂_tail h.outcomes
      · refine h.nodup.sublist (List.Sublist.map _ ?_)
        exact (List.tail_sublist _).append_right _
    | call k answer => exact tracks_call h k answer
    | restart r =>
      exact tracks_idle (idle_init s.daemon.config s.daemon.file r).1 rfl rfl rfl
    | _ => exact absurd trivial hp

theorem mem_live_step {s : Appliance K} {e : Happening K} {t : Thread K}
    (ht : t ∈ (s.step e).live) : t ∈ s.live ∨
      (∃ c a, e = .submit ∧ s.free = true ∧ s.daemon.lanOutClassifier = some c ∧
        a ∈ s.daemon.registry.all ∧ c.starts a = true ∧ t ∈ Thread.start? (s.period a.id) a) ∨
      ∃ k answer u host, e = .call k answer ∧ s.threads[k]? = some u ∧
        u.Called (s.gateway u.id) (s.period u.id) s.host answer host t := by
  by_cases hp : e.Plugs
  · rcases ports_step s hp with ⟨r, rfl⟩ | ⟨plugged, periods, host, served, he⟩
    · cases ht
    · rw [he] at ht
      exact .inl ht
  · cases e with
    | act e =>
      simp only [step] at ht
      split at ht <;> exact .inl ht
    | submit =>
      simp only [step] at ht
      split at ht
      · rename_i hf
        rw [live, (submit_frame s).2.2.2.2.1] at ht
        cases hc : s.daemon.lanOutClassifier with
        | none =>
          rw [submit_off hc] at ht
          exact .inl ht
        | some c =>
          rw [threads_submit hc, ← List.append_assoc] at ht
          rcases List.mem_append.mp ht with ht | ht
          · exact .inl ht
          · obtain ⟨a, ha, hat⟩ := List.mem_filterMap.mp ht
            obtain ⟨ha, hs⟩ := List.mem_filter.mp ha
            exact .inr (.inl ⟨c, a, rfl, hf, rfl, ha, hs, hat⟩)
      · exact .inl ht
    | harvest done =>
      simp only [step] at ht
      split at ht
      · exact .inl ((perm_harvest s done).mem_iff.mp ht)
      · exact .inl ht
    | apply r =>
      rcases List.mem_append.mp ht with ht | ht
      · exact .inl (List.mem_append_left _ (List.mem_of_mem_tail ht))
      · exact .inl (List.mem_append_right _ ht)
    | call k answer =>
      simp only [step] at ht
      rcases call_inv s k answer with he | ⟨u, host, u', hk, hc, he⟩
      · exact .inl (he ▸ ht)
      · rw [he] at ht
        rcases List.mem_append.mp ht with ht | ht
        · exact .inl (List.mem_append_left _ ht)
        · rcases List.mem_or_eq_of_mem_set ht with ht | rfl
          · exact .inl (List.mem_append_right _ ht)
          · exact .inr (.inr ⟨k, answer, u, host, rfl, hk, hc⟩)
    | restart r => cases ht
    | _ => exact absurd trivial hp

theorem plugged_step (s : Appliance K) {e : Happening K} (he : ¬ e.Plugs) :
    (s.step e).plugged = s.plugged := by
  cases e with
  | act e =>
    simp only [step]
    split <;> rfl
  | submit =>
    simp only [step]
    split
    · exact (submit_frame s).2.2.2.2.2.1
    · rfl
  | harvest done =>
    simp only [step, harvest]
    split
    · split <;> rfl
    · rfl
  | call k answer =>
    simp only [step]
    rcases call_inv s k answer with he | ⟨u, host, u', -, -, he⟩ <;> rw [he]
  | apply r => rfl
  | restart r => rfl
  | _ => exact absurd trivial he

end Appliance

end Wifucked
