import Wifucked.Ports.Lasting

/-!
# What a start of a server leaves behind

Drop-ins that name an interface and addresses that a start put on it, where
they come from at every step, and that no port but a LAN-out port has them
where no start fails halfway and no interface changes hands with them.
-/

namespace Wifucked

variable {K : Type}

-- ---------------------------------------------------------------------------
-- Drop-ins and addresses
-- ---------------------------------------------------------------------------

namespace LinuxDhcp

def Names (text ifname : String) : Prop :=
  ("interface=" ++ ifname).toList ∈ text.toList.splitOn '\n'

instance (text ifname : String) : Decidable (Names text ifname) :=
  inferInstanceAs (Decidable (_ ∈ _))

namespace Host

variable {h : Host} {ifname gateway n : String}

def Assigned (h : Host) (n : String) : Prop := ∃ a ∈ h.addrs, a.ours = true ∧ a.ifname = n

def Named (h : Host) (n : String) : Prop := ∃ d ∈ h.dropins.values, Names d.2 n

def Residue (h : Host) (n : String) : Prop := h.Named n ∨ h.Assigned n

theorem assigned_solicit {ends : LeaseEnds} (ha : (h.solicit ifname ends).Assigned n) :
    h.Assigned n := by
  unfold solicit at ha
  split at ha
  · obtain ⟨a, ha, hours, hn⟩ := ha
    rcases List.mem_append.mp ha with ha | ha
    · exact ⟨a, ha, hours, hn⟩
    · -- What `dhclient` put there is not ours.
      rw [List.mem_singleton.mp ha] at hours
      cases hours
  · exact ha

theorem assigned_addAddress {ends : Applied} (ha : (h.addAddress ifname gateway ends).Assigned n) :
    h.Assigned n ∨ ends.applied = true ∧ n = ifname := by
  unfold addAddress at ha
  split at ha
  · rename_i hadded
    obtain ⟨a, ha, hours, hn⟩ := ha
    rcases List.mem_append.mp ha with ha | ha
    · exact .inl ⟨a, ha, hours, hn⟩
    · rw [List.mem_singleton.mp ha] at hn
      exact .inr ⟨(Bool.and_eq_true _ _ ▸ hadded).1, hn.symm⟩
  · exact .inl ha

theorem assigned_unplug (ha : (h.unplug ifname).Assigned n) : h.Assigned n := by
  obtain ⟨a, ha, hours⟩ := ha
  exact ⟨a, List.mem_of_mem_filter ha, hours⟩

theorem assigned_rename {new : String} (ha : (h.rename ifname new).Assigned n) :
    h.Assigned n ∨ h.Assigned ifname ∧ n = new := by
  obtain ⟨a, ha, hours, hn⟩ := ha
  obtain ⟨b, hb, rfl⟩ := List.mem_map.mp ha
  by_cases hi : b.ifname = ifname
  · rw [if_pos hi] at hours hn
    exact .inr ⟨⟨b, hb, hours, hi⟩, hn.symm⟩
  · rw [if_neg hi] at hours hn
    exact .inl ⟨b, hb, hours, hn⟩

theorem dropins_solicit (h : Host) (ifname : String) (ends : LeaseEnds) :
    (h.solicit ifname ends).dropins = h.dropins := by
  unfold solicit
  split <;> rfl

theorem dropins_addAddress (h : Host) (ifname gateway : String) (ends : Applied) :
    (h.addAddress ifname gateway ends).dropins = h.dropins := by
  unfold addAddress
  split <;> rfl

theorem reload_frame (h : Host) (applied : Bool) :
    (h.reload applied).dropins = h.dropins ∧ (h.reload applied).addrs = h.addrs := by
  unfold reload
  split <;> exact ⟨rfl, rfl⟩

theorem named_writeDropin (hd : (h.writeDropin ifname gateway .ok).Named n) :
    h.Named n ∨ Names (conf ifname gateway) n := by
  obtain ⟨d, hd, hn⟩ := hd
  rcases Keyed.mem_put.mp hd with rfl | ⟨hd, -⟩
  · exact .inr hn
  · exact .inl ⟨d, hd, hn⟩

end Host

end LinuxDhcp

open LinuxDhcp

theorem Thread.Called.leasing {t t' : Thread K} (hc : t.Called gateway period h answer h' t')
    (hs : t'.stage = .leasing) : t' = t := by
  cases hc with
  | idle => rfl
  | @lease ends _ =>
    revert hs
    rcases h.attemptClientLease t.ifname ends with error | _ | lease <;> exact fun hs => by cases hs
  | @listen ends _ =>
    revert hs
    rcases passiveListenForForeignServer ends with error | _ | _ <;> exact fun hs => by cases hs
  | @write ends _ => cases ends <;> cases hs
  | @add ends _ =>
    simp only [added] at hs
    split at hs <;> cases hs
  | @reload ends _ =>
    simp only [reloaded] at hs
    split at hs <;> cases hs

theorem Thread.Called.assigned {t t' : Thread K} (hc : t.Called gateway period h answer h' t')
    (ha : h'.Assigned n) : h.Assigned n ∨
      ∃ ends, answer = .add ends ∧ t.stage = .addressing ∧ ends.applied = true ∧ n = t.ifname := by
  cases hc with
  | idle => exact .inl ha
  | lease hs => exact .inl (Host.assigned_solicit ha)
  | listen hs => exact .inl ha
  | @write ends hs =>
    unfold Host.writeDropin at ha
    split at ha <;> exact .inl ha
  | @add ends hs =>
    exact (Host.assigned_addAddress ha).imp_right fun hadded => ⟨ends, rfl, hs, hadded⟩
  | @reload ends hs =>
    rw [Host.Assigned, (Host.reload_frame ..).2] at ha
    exact .inl ha

theorem Thread.Called.named {t t' : Thread K} (hc : t.Called gateway period h answer h' t')
    (hw : ∀ ends, answer = .write ends → t.stage = .writing → ends = .ok ∨ ends = .failed none)
    (hd : h'.Named n) : h.Named n ∨ answer = .write .ok ∧ t.stage = .writing ∧
      t'.stage = .addressing ∧ Names (conf t.ifname gateway) n := by
  cases hc with
  | idle => exact .inl hd
  | lease hs =>
    rw [Host.Named, Host.dropins_solicit] at hd
    exact .inl hd
  | listen hs => exact .inl hd
  | @write ends hs =>
    rcases hw ends rfl hs with rfl | rfl
    · exact (Host.named_writeDropin hd).imp_right fun hnames => ⟨rfl, hs, rfl, hnames⟩
    · exact .inl hd
  | @add ends hs =>
    rw [Host.Named, Host.dropins_addAddress] at hd
    exact .inl hd
  | @reload ends hs =>
    rw [Host.Named, (Host.reload_frame ..).1] at hd
    exact .inl hd

-- ---------------------------------------------------------------------------
-- No port but a LAN-out port
-- ---------------------------------------------------------------------------

namespace Appliance

variable {s : Appliance K} {strict : Bool}

/-- A server is being started on the port, where that is not to count. -/
def InProgress (strict : Bool) (s : Appliance K) (id : String) : Prop :=
  strict = false ∧ ∃ t ∈ s.live, t.id = id ∧ t.stage.Begun

/-- Only a LAN-out port, or one whose pipeline is on its way to that, is known
by an interface with a drop-in or an address of ours. -/
def Clean (strict : Bool) (s : Appliance K) : Prop :=
  s.daemon.registry.All fun a => a.role ≠ .lanOut → ¬ s.InProgress strict a.id →
    ∀ n, a.iface = some n → ¬ s.host.Residue n

/-- What a step leaves behind: nothing on other ports than LAN-out ports,
nothing by a `start_server` that returns `False`, and nothing that a lease
attempt would take for a lease. -/
structure LeavesNothing [Field K] [LinearOrder K] [FloorRing K] [HalfPow K] (strict : Bool)
    (s : Appliance K) (e : Happening K) : Prop where
  clean : (s.step e).Clean strict
  failed : ∀ k answer t, e = .call k answer → s.threads[k]? = some t → t.serves = true →
    (t.advance (s.gateway t.id) (s.period t.id) s.host answer).2.stage = .ended (.served false) →
      t.stage = .writing ∧ (s.step e).host.dropins = s.host.dropins ∧
        (s.step e).host.addrs = s.host.addrs
  lease : ∀ k ends t lease, e = .call k (.lease ends) → s.threads[k]? = some t →
    t.stage = .leasing → s.host.attemptClientLease t.ifname ends = .ok (some lease) →
      ∀ a ∈ (s.step e).host.addrs, a.ours = true → a.ifname = t.ifname → a.localAddr ≠ lease.ip

/-- Nobody who would be misled is on the interface. -/
structure Spare (strict : Bool) (s : Appliance K) (n : String) : Prop where
  ports : ∀ a ∈ s.daemon.registry.values, a.role ≠ .lanOut → a.iface = some n →
    s.InProgress strict a.id
  leasing : ∀ t ∈ s.live, t.stage = .leasing → t.ifname ≠ n

/-- A start of a server fails before it has written anything, or goes through. -/
def GoesThrough (strict : Bool) (s : Appliance K) (t : Thread K) : Answer → Prop
  | .write ends => t.stage = .writing → ends = .failed none ∨ ends = .ok ∧
      ∀ a ∈ s.daemon.registry.values, a.role ≠ .lanOut → ∀ n, a.iface = some n →
        Names (conf t.ifname (s.gateway t.id)) n →
          s.InProgress strict a.id ∨ strict = false ∧ a.id = t.id
  | .add ends => t.stage = .addressing → ends.raised = false ∧
      (ends.applied = true → s.Spare strict t.ifname)
  | .reload ends => t.stage = .reloading → ∃ output, ends.command.run = .ok (some output)
  | _ => True

/-- Starts go through, and what they leave on an interface does not get to
another port with it. -/
def Careful (strict : Bool) (s : Appliance K) (e : Happening K) : Prop :=
  match e with
  | .act e => ∀ seen, e.action = .discover seen → ∀ a ∈ seen, a.role = .wan ∧
      ∀ n, a.iface = some n → s.host.Residue n → s.IsLanOut a.id ∨ s.InProgress strict a.id
  | .call k answer => ∀ t, s.threads[k]? = some t → s.GoesThrough strict t answer
  | .rename id new => ∀ p, s.plugged.get? id = some p → s.host.Assigned p.ifname →
      s.Spare strict new
  | _ => True

structure Spotless (strict : Bool) (s : Appliance K) : Prop where
  tracks : s.Tracks
  waits : s.Waits
  clean : s.Clean strict
  leasing : ∀ t ∈ s.live, t.stage = .leasing → ¬ s.host.Assigned t.ifname

theorem begun_called {t t' : Thread K} (hg : s.GoesThrough strict t answer)
    (hc : t.Called g p h answer h' t') (hb : t.stage.Begun) : t'.stage.Begun := by
  cases hc with
  | idle => exact hb
  | lease hs | listen hs | write hs =>
    rw [hs] at hb
    exact hb.elim
  | @add ends hs => simp [Thread.added, (hg hs).1, Stage.Begun]
  | @reload ends hs =>
    obtain ⟨output, hrun⟩ := hg hs
    simp [Thread.reloaded, hrun, Stage.Begun]

theorem mem_live_submit {t : Thread K} (ht : t ∈ s.live) : t ∈ s.submit.live := by
  rw [live, (submit_frame s).2.2.2.2.1]
  refine (List.mem_append.mp ht).elim (List.mem_append_left _) fun ht => ?_
  cases hc : s.daemon.lanOutClassifier with
  | none =>
    rw [submit_off hc]
    exact List.mem_append_right _ ht
  | some c =>
    rw [threads_submit hc]
    exact List.mem_append_right _ (List.mem_append_left _ ht)

theorem inProgress_call {id : String} {k : ℕ} {answer : Answer}
    (he : ∀ t, s.threads[k]? = some t → s.GoesThrough strict t answer)
    (h : s.InProgress strict id) : (s.call k answer).InProgress strict id := by
  obtain ⟨hstrict, t, ht, rfl, hb⟩ := h
  refine ⟨hstrict, ?_⟩
  rcases call_inv s k answer with hs | ⟨u, host, u', hk, hc, hs⟩
  · rw [hs]
    exact ⟨t, ht, rfl, hb⟩
  · rw [hs]
    rcases List.mem_append.mp ht with ht | ht
    · exact ⟨t, List.mem_append_left _ ht, rfl, hb⟩
    · obtain ⟨i, hi⟩ := List.mem_iff_getElem?.mp ht
      by_cases hik : k = i
      · subst hik
        obtain rfl : u = t := Option.some.inj (hk.symm.trans hi)
        exact ⟨u', mem_live_set hk u', congrArg Atomic.id hc.atomic,
          begun_called (he u hk) hc hb⟩
      · refine ⟨t, List.mem_append_right _ (List.mem_of_getElem? (i := i) ?_), rfl, hb⟩
        rw [List.getElem?_set_ne hik]
        exact hi

variable [Field K] [LinearOrder K] [FloorRing K] [HalfPow K]

theorem inProgress_apply (ht : s.Tracks) (r : Reading K) {id : String}
    (h : s.InProgress strict id) : (s.step (.apply r)).InProgress strict id ∨
      ∀ a, (s.step (.apply r)).daemon.registry.get? id = some a → a.role = .lanOut := by
  obtain ⟨hstrict, t, hmem, rfl, hbegun⟩ := h
  rcases apply_inv ht r with ⟨hlive, -⟩ | ⟨o, u, -, hou, hlive, -, hreg⟩
  · refine .inl ?_
    rw [InProgress, hlive]
    exact ⟨hstrict, t, hmem, rfl, hbegun⟩
  · rw [hlive] at hmem
    rcases List.mem_cons.mp hmem with rfl | hmem
    · right
      intro a ha
      rw [hreg, if_pos rfl] at ha
      obtain ⟨b, -, rfl⟩ := Option.map_eq_some_iff.mp ha
      refine hou.role.mpr ?_
      obtain ⟨c, v, hs, -⟩ := hou
      rw [hs] at hbegun ⊢
      cases v with
      | served started =>
        cases started with
        | false => exact hbegun.elim
        | true => rfl
      | _ => exact hbegun.elim
    · exact .inl ⟨hstrict, t, hmem, rfl, hbegun⟩

theorem inProgress_step (ht : s.Tracks) {e : Happening K} (he : s.Careful strict e)
    (hr : ∀ r, e ≠ .restart r) (hb : ∀ r, e ≠ .reboot r) {id : String}
    (h : s.InProgress strict id) : (s.step e).InProgress strict id ∨
      ∀ a, (s.step e).daemon.registry.get? id = some a → a.role = .lanOut := by
  have hsame : (s.step e).live = s.live → (s.step e).InProgress strict id := by
    intro hlive
    rw [InProgress, hlive]
    exact h
  by_cases hp : e.Plugs
  · rcases ports_step s hp with ⟨r, rfl⟩ | ⟨plugged, periods, host, served, hs⟩
    · exact absurd rfl (hb r)
    · exact .inl (hsame (by rw [hs]; rfl))
  · cases e with
    | act e =>
      refine .inl (hsame ?_)
      simp only [step]
      split <;> rfl
    | submit =>
      obtain ⟨hstrict, t, hmem, hid⟩ := h
      simp only [step]
      split
      · exact .inl ⟨hstrict, t, mem_live_submit hmem, hid⟩
      · exact .inl ⟨hstrict, t, hmem, hid⟩
    | harvest done =>
      obtain ⟨hstrict, t, hmem, hid⟩ := h
      simp only [step]
      split
      · exact .inl ⟨hstrict, t, (perm_harvest s done).mem_iff.mpr hmem, hid⟩
      · exact .inl ⟨hstrict, t, hmem, hid⟩
    | apply r => exact inProgress_apply ht r h
    | call k answer => exact .inl (inProgress_call he h)
    | restart r => exact absurd rfl (hr r)
    | _ => exact absurd trivial hp

-- ---------------------------------------------------------------------------
-- Interfaces
-- ---------------------------------------------------------------------------

theorem assigned_inv {e : Happening K} (he : s.Careful strict e)
    (ha : (s.step e).host.Assigned n) : s.host.Assigned n ∨ ¬ e.Writes ∧ s.Spare strict n := by
  by_cases hc : ∃ k answer, e = .call k answer
  · obtain ⟨k, answer, rfl⟩ := hc
    simp only [step] at ha
    rcases call_inv s k answer with hs | ⟨u, host, u', hk, hcall, hs⟩
    · rw [hs] at ha
      exact .inl ha
    · rw [hs] at ha
      rcases hcall.assigned ha with ha | ⟨ends, rfl, hstage, hadded, rfl⟩
      · exact .inl ha
      · exact .inr ⟨fun hw => hw, (he u hk hstage).2 hadded⟩
  · by_cases hp : e.Plugs
    · cases e with
      | plug id ifname =>
        simp only [step, plug] at ha
        split at ha <;> exact .inl ha
      | unplug id =>
        simp only [step, unplug] at ha
        split at ha
        · exact .inl ha
        · exact .inl (Host.assigned_unplug ha)
      | rename id new =>
        simp only [step, rename] at ha
        split at ha
        · exact .inl ha
        · rename_i p hplugged
          split at ha
          · exact .inl ha
          · rcases Host.assigned_rename ha with ha | ⟨hold, rfl⟩
            · exact .inl ha
            · exact .inr ⟨fun hw => hw, he p hplugged hold⟩
      | reboot r =>
        obtain ⟨a, hmem, -⟩ := ha
        cases hmem
      | _ => cases hp
    · rw [(host_step s hp fun k answer h => hc ⟨k, answer, h⟩).1] at ha
      exact .inl ha

theorem named_inv {e : Happening K} (he : s.Careful strict e) (hd : (s.step e).host.Named n) :
    s.host.Named n ∨ ¬ e.Writes ∧
      ∀ a ∈ s.daemon.registry.values, a.role ≠ .lanOut → a.iface = some n →
        s.InProgress strict a.id ∨ (s.step e).InProgress strict a.id := by
  by_cases hc : ∃ k answer, e = .call k answer
  · obtain ⟨k, answer, rfl⟩ := hc
    simp only [step] at hd ⊢
    rcases call_inv s k answer with hs | ⟨u, host, u', hk, hcall, hs⟩
    · rw [hs] at hd
      exact .inl hd
    · have hg := he u hk
      have hwrite : ∀ ends, answer = .write ends → u.stage = .writing →
          ends = .ok ∨ ends = .failed none := by
        rintro ends rfl hw
        exact (hg hw).elim .inr fun h => .inl h.1
      rw [hs] at hd ⊢
      rcases hcall.named hwrite hd with hd | ⟨rfl, hw, hw', hnames⟩
      · exact .inl hd
      · refine .inr ⟨fun hw => hw, fun a hmem hrole hiface => ?_⟩
        rcases hg hw with hnone | ⟨-, hown⟩
        · cases hnone
        · refine (hown a hmem hrole n hiface hnames).imp_right ?_
          rintro ⟨hstrict, hid⟩
          refine ⟨hstrict, u', ?_, ?_, ?_⟩
          · exact mem_live_set hk u'
          · exact (congrArg Atomic.id hcall.atomic).trans hid.symm
          · rw [hw']
            trivial
  · by_cases hp : e.Plugs
    · cases e with
      | plug id ifname =>
        simp only [step, plug] at hd
        split at hd <;> exact .inl hd
      | unplug id =>
        simp only [step, unplug] at hd
        split at hd <;> exact .inl hd
      | rename id new =>
        simp only [step, rename] at hd
        split at hd
        · exact .inl hd
        · split at hd <;> exact .inl hd
      | reboot r => exact .inl hd
      | _ => cases hp
    · rw [(host_step s hp fun k answer h => hc ⟨k, answer, h⟩).1] at hd
      exact .inl hd

/-- A port that a step leaves other than LAN-out was so before, with the
interface that it has, or a sweep saw it there. -/
theorem port_inv (ht : s.Tracks) (hw : s.Waits) {e : Happening K} (he : s.Careful strict e)
    {b : Atomic K} (hb : (s.step e).daemon.registry.get? b.id = some b) (hrole : b.role ≠ .lanOut)
    (hn : b.iface = some n) :
    (∃ a, s.daemon.registry.get? b.id = some a ∧ a.role ≠ .lanOut ∧ a.iface = some n) ∨
      e.Writes ∧ (s.host.Residue n → s.InProgress strict b.id) := by
  by_cases hwrites : e.Writes
  · cases e with
    | act e =>
      simp only [step] at hb
      split at hb
      · rename_i hm
        obtain ⟨seen, hact, hseen⟩ := Daemon.seen_step s.daemon (not_classifies_of_may hm) hb
        have hknown : ∀ a, s.daemon.registry.get? b.id = some a → a.role ≠ .lanOut :=
          fun a ha h => hrole ((hseen.known a ha).trans h)
        rcases hseen.iface with hnone | ⟨f, hf, hid, hsame⟩ | ⟨a, ha, hsame⟩
        · rw [Atomic.iface, hnone] at hn
          cases hn
        · rw [Atomic.iface, hsame] at hn
          refine .inr ⟨hwrites, fun hr => ?_⟩
          rcases (he seen (hact f hf) f hf).2 n hn hr with ⟨a, ha, hl⟩ | hp
          · exact absurd hl (hknown a (hid ▸ ha))
          · exact hid ▸ hp
        · rw [Atomic.iface, hsame] at hn
          exact .inl ⟨a, ha, hknown a ha, hn⟩
      · exact .inl ⟨b, hb, hrole, hn⟩
    | apply r =>
      rcases apply_inv ht r with ⟨-, hreg⟩ | ⟨o, u, hu, -, -, -, hreg⟩
      · rw [hreg] at hb
        exact .inl ⟨b, hb, hrole, hn⟩
      · rw [hreg] at hb
        split at hb
        · rename_i hid
          obtain ⟨a, ha, hab⟩ := Option.map_eq_some_iff.mp hb
          refine .inl ⟨a, ha, fun h => hw.not_lanOut hu ⟨a, hid ▸ ha, h⟩, ?_⟩
          rw [← hab] at hn
          exact hn
        · exact .inl ⟨b, hb, hrole, hn⟩
    | restart r =>
      rw [(iface_restart s r).of_get? hb] at hn
      cases hn
    | reboot r =>
      rw [(iface_restart s r).of_get? hb] at hn
      cases hn
    | _ => cases hwrites
  · rw [(daemon_step s hwrites).1] at hb
    exact .inl ⟨b, hb, hrole, hn⟩

theorem clean_step (h : s.Spotless strict) {e : Happening K} (he : s.Careful strict e) :
    (s.step e).Clean strict := by
  intro b hb hrole hprogress n hn hr
  have hb := Keyed.mem_values.mp hb
  have hrestart : ∀ r, e ≠ .restart r := by
    rintro r rfl
    rw [(iface_restart s r).of_get? hb] at hn
    cases hn
  have hreboot : ∀ r, e ≠ .reboot r := by
    rintro r rfl
    rw [(iface_restart s r).of_get? hb] at hn
    cases hn
  have hbefore : ¬ s.InProgress strict b.id := by
    intro hp
    rcases inProgress_step h.tracks he hrestart hreboot hp with hp | hl
    · exact hprogress hp
    · exact hrole (hl b hb)
  have hold : s.host.Residue n ∨ ¬ e.Writes ∧
      ∀ a ∈ s.daemon.registry.values, a.role ≠ .lanOut → a.iface = some n →
        s.InProgress strict a.id ∨ (s.step e).InProgress strict a.id := by
    rcases hr with hd | ha
    · exact (named_inv he hd).imp_left .inl
    · exact (assigned_inv he ha).imp .inr fun ⟨hw, hspare⟩ =>
        ⟨hw, fun a hmem hrole hiface => .inl (hspare.ports a hmem hrole hiface)⟩
  rcases port_inv h.tracks h.waits he hb hrole hn with ⟨a, ha, harole, hiface⟩ | ⟨hw, hp⟩
  · obtain ⟨hmem, hid⟩ := Keyed.get?_eq_some.mp ha
    rw [← hid] at hbefore hprogress
    rcases hold with hr | ⟨-, hall⟩
    · exact h.clean a hmem harole hbefore n hiface hr
    · exact (hall a hmem harole hiface).elim hbefore hprogress
  · rcases hold with hr | ⟨hnot, -⟩
    · exact hbefore (hp hr)
    · exact hnot hw

omit [Field K] [LinearOrder K] [FloorRing K] [HalfPow K] in
theorem not_inProgress_of_starts (ht : s.Tracks) (hf : s.free = true)
    (hc : s.daemon.lanOutClassifier = some c) {a : Atomic K} (hs : c.starts a = true) :
    ¬ s.InProgress strict a.id := by
  rintro ⟨-, t, hmem, hid, -⟩
  rw [live, ht.collected_nil hf, List.nil_append] at hmem
  have hflight : t.atomic ∈ c.inFlight.values := by
    rw [ht.inFlight c hc]
    exact List.mem_map_of_mem hmem
  have hget := Keyed.mem_values.mp hflight
  simp only [LanOutClassifier.starts, Bool.and_eq_true, Option.isNone_iff_eq_none] at hs
  rw [show t.atomic.id = a.id from hid, hs.2] at hget
  cases hget

theorem leasing_step (h : s.Spotless strict) {e : Happening K} (he : s.Careful strict e)
    {t : Thread K} (ht : t ∈ (s.step e).live) (hs : t.stage = .leasing) :
    ¬ (s.step e).host.Assigned t.ifname := by
  intro ha
  have hlive : t ∈ s.live → False := by
    intro ht
    rcases assigned_inv he ha with ha | ⟨-, hspare⟩
    · exact h.leasing t ht hs ha
    · exact hspare.leasing t ht hs rfl
  rcases mem_live_step ht with ht | ⟨c, a, rfl, hf, hc, hmem, hst, hat⟩ |
    ⟨k, answer, u, host, rfl, hk, hcall⟩
  · exact hlive ht
  · obtain ⟨rfl, -⟩ := Thread.of_start? hat
    have hp : ¬ (Happening.submit : Happening K).Plugs := fun hp => hp
    rw [(host_step s hp fun k answer h => by cases h).1] at ha
    have hrole : t.atomic.role ≠ .lanOut := by
      intro hl
      simp [LanOutClassifier.starts, isCandidate, hl] at hst
    exact h.clean.of_get? (Registry.mem_all.mp hmem) hrole
      (not_inProgress_of_starts h.tracks hf hc hst) t.ifname t.named (.inr ha)
  · rw [hcall.leasing hs] at hlive
    exact hlive (mem_live hk)

theorem spotless_step (h : s.Spotless strict) {e : Happening K} (he : s.Careful strict e) :
    (s.step e).Spotless strict := by
  have hswept : e.Swept := by
    cases e with
    | act e => exact fun seen hd a ha => (he seen hd a ha).1
    | _ => trivial
  exact ⟨tracks_step h.tracks e, waits_step h.tracks h.waits hswept, clean_step h he,
    fun t => leasing_step h he⟩

theorem failed_of_careful {e : Happening K} (he : s.Careful strict e) {k : ℕ} {answer : Answer}
    {t : Thread K} (hcall : e = .call k answer) (hk : s.threads[k]? = some t)
    (hs : t.serves = true)
    (hf : (t.advance (s.gateway t.id) (s.period t.id) s.host answer).2.stage =
      .ended (.served false)) :
    t.stage = .writing ∧ (s.step e).host.dropins = s.host.dropins ∧
      (s.step e).host.addrs = s.host.addrs := by
  subst hcall
  have hg := he t hk
  have hhost : (s.step (.call k answer)).host =
      (t.advance (s.gateway t.id) (s.period t.id) s.host answer).1 := by
    simp only [step, call, hk]
  have hc := t.advance_called (s.gateway t.id) (s.period t.id) s.host answer
  rw [hhost]
  generalize t.advance (s.gateway t.id) (s.period t.id) s.host answer = p at hc hf ⊢
  obtain ⟨host, t'⟩ := p
  simp only at hc hf ⊢
  cases hc with
  | idle => simp [Thread.serves, hf] at hs
  | lease hl => simp [Thread.serves, hl] at hs
  | listen hl => simp [Thread.serves, hl] at hs
  | @write ends hw =>
    rcases hg hw with rfl | ⟨rfl, -⟩
    · -- It did not get as far as opening the file.
      exact ⟨hw, rfl, rfl⟩
    · cases hf
  | @add ends ha => simp [Thread.added, (hg ha).1] at hf
  | @reload ends hr =>
    obtain ⟨output, hrun⟩ := hg hr
    simp [Thread.reloaded, hrun] at hf

theorem leavesNothing (h : s.Spotless strict) {e : Happening K} (he : s.Careful strict e) :
    s.LeavesNothing strict e := by
  refine ⟨clean_step h he, fun k answer t => failed_of_careful he, ?_⟩
  rintro k ends t lease rfl hk hs - a ha hours hifname
  have hassigned : (s.step (.call k (.lease ends))).host.Assigned t.ifname :=
    ⟨a, ha, hours, hifname⟩
  have hmem : t ∈ s.live := mem_live hk
  rcases assigned_inv he hassigned with hassigned | ⟨-, hspare⟩
  · exact absurd hassigned (h.leasing t hmem hs)
  · exact absurd rfl (hspare.leasing t hmem hs)

/-- Whatever fails, comes and goes, or is restarted between the calls. -/
theorem leavesNothing_run (strict : Bool) (config : Config K) (file : Option (StateFile K))
    (r : Reading K) {es : List (Happening K)}
    (hes : Runs.Along step (Careful strict) (init config file r) es) :
    Runs.Along step (LeavesNothing strict) (init config file r) es := by
  have hinit : (init config file r).Spotless strict := by
    refine ⟨tracks_init config file r, ?_, ?_, fun t ht => by cases ht⟩
    · rintro a - ⟨t, ht, -⟩
      cases ht
    · intro a ha _ _ n hn
      rw [iface_init config file r a ha] at hn
      cases hn
  have hstep : ∀ (s : Appliance K) (e : Happening K), s.Spotless strict → s.Careful strict e →
      (s.step e).Spotless strict ∧ s.LeavesNothing strict e := fun s e h he =>
    ⟨spotless_step h he, leavesNothing h he⟩
  exact Runs.along_of hstep hinit hes

theorem dockPlugged_careful :
    Runs.Along step (Careful false) (init hotspot none ⟨0, 0⟩) (dockPlugged ++ serverStarts) := by
  refine ⟨trivial, ?_, trivial, fun _ _ => trivial, fun _ _ => trivial, ?_, ?_, ?_, trivial,
    trivial, trivial⟩
  · rintro _ ⟨⟩ a ha
    obtain rfl := List.mem_singleton.mp ha
    refine ⟨rfl, fun n _ hr => ?_⟩
    rcases hr with ⟨d, hd, -⟩ | ⟨a, ha, -⟩
    · cases hd
    · cases ha
  · intro t ht _
    have hid : ((Runs.exec step (init hotspot none ⟨0, 0⟩) (dockPlugged ++
        serverStarts.take 1)).threads[0]?).map Thread.id = some "usb:dock" := by decide +kernel
    have hports : ∀ a ∈ (Runs.exec step (init hotspot none ⟨0, 0⟩) (dockPlugged ++
        serverStarts.take 1)).daemon.registry.values, a.id = "usb:dock" := by decide +kernel
    have hid := Option.some.inj ((congrArg (Option.map Thread.id) ht).symm.trans hid)
    exact .inr ⟨rfl, fun a ha _ n _ _ => .inr ⟨rfl, (hports a ha).trans hid.symm⟩⟩
  · intro t ht hs
    have hid : ((Runs.exec step (init hotspot none ⟨0, 0⟩) (dockPlugged ++
        serverStarts.take 2)).threads[0]?).map Thread.id = some "usb:dock" := by decide +kernel
    have hports : ∀ a ∈ (Runs.exec step (init hotspot none ⟨0, 0⟩) (dockPlugged ++
        serverStarts.take 2)).daemon.registry.values, a.id = "usb:dock" := by decide +kernel
    have hstages : ∀ u ∈ (Runs.exec step (init hotspot none ⟨0, 0⟩) (dockPlugged ++
        serverStarts.take 2)).live, u.stage ≠ .leasing := by decide +kernel
    have hid := Option.some.inj ((congrArg (Option.map Thread.id) ht).symm.trans hid)
    refine ⟨rfl, fun _ => ⟨fun a ha _ _ => ⟨rfl, t, ?_, ?_, ?_⟩, fun u hu hl => ?_⟩⟩
    · exact mem_live ht
    · exact hid.trans (hports a ha).symm
    · rw [hs]
      trivial
    · exact absurd hl (hstages u hu)
  · exact fun t ht _ => ⟨_, rfl⟩

theorem leavesNothing_dockPlugged :
    Runs.Along step (LeavesNothing false) (init hotspot none ⟨0, 0⟩)
      (dockPlugged ++ serverStarts) :=
  leavesNothing_run false hotspot none ⟨0, 0⟩ dockPlugged_careful

def serverFails : List (Happening ℚ) :=
  [.call 0 .silence, .call 0 (.write .ok), .call 0 (.add ⟨true, false⟩), .call 0 (.reloaded 1),
    .harvest fun _ => true, .apply ⟨20, 20⟩]

/-- The reload fails, and the adapter stays a WAN port with our address. -/
theorem remains_after_failure :
    ¬ Runs.Along step (LeavesNothing true) (init hotspot none ⟨0, 0⟩)
        (dockPlugged ++ serverFails) ∧
      ¬ Runs.Along step (LeavesNothing false) (init hotspot none ⟨0, 0⟩)
        (dockPlugged ++ serverFails) := by
  have hport : ∃ a ∈ (Runs.exec step (init hotspot none ⟨0, 0⟩)
      (dockPlugged ++ serverFails)).daemon.registry.values,
      a.role ≠ .lanOut ∧ a.iface = some "eth1" := by decide +kernel
  have hlive : (Runs.exec step (init hotspot none ⟨0, 0⟩)
      (dockPlugged ++ serverFails)).live.map Thread.id = [] := by decide +kernel
  have haddr : ∃ a ∈ (Runs.exec step (init hotspot none ⟨0, 0⟩)
      (dockPlugged ++ serverFails)).host.addrs, a.ours = true ∧ a.ifname = "eth1" := by
    decide +kernel
  have hfails : ∀ strict, ¬ Runs.Along step (LeavesNothing strict) (init hotspot none ⟨0, 0⟩)
      (dockPlugged ++ serverFails) := by
    intro strict h
    obtain ⟨-, -, -, -, -, -, h, -⟩ := Runs.along_append.mp h
    obtain ⟨a, ha, hrole, hiface⟩ := hport
    refine h.clean a ha hrole ?_ "eth1" hiface (.inr haddr)
    rintro ⟨-, t, ht, -⟩
    have ht := List.mem_map_of_mem (f := Thread.id) ht
    exact absurd (hlive ▸ ht) List.not_mem_nil
  exact ⟨hfails true, hfails false⟩

end Appliance

end Wifucked
