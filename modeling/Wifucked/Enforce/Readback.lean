import Wifucked.Enforce.Linux

/-!
# What a reading says of the kernel

When nothing is left to do, in terms of what is installed: `Seen` is all that
the comparison rests on.
-/

namespace Wifucked

namespace Tools

def rateOf (t : Tools) (q : Qdisc) : Option Int :=
  parseRate (q.bandwidth.elim (.str "unlimited") t.bandwidth)

def cakeRead (t : Tools) (q : Qdisc) : Option (Int × String) :=
  (t.rateOf q).map fun rate => (rate, q.diffserv)

def cakeReport (t : Tools) (k : Kernel) (dev : String) : Option (Int × String) :=
  if t.fails .qdiscs ∨ dev = "" then none
  else ((k.cakesOn dev).filterMap t.cakeRead).getLast?

def Readable (t : Tools) (k : Kernel) : Prop :=
  t.fails .ruleset = true ∨ ∀ rule ∈ k.nft, rule.unreadable = false

def reading (t : Tools) (k : Kernel) : DesiredState where
  shaping :=
    (((t.qdiscShow k).map readShaping).getD []).insertionSort fun s t => s.ifname ≤ t.ifname
  routes :=
    (((t.ruleShow k).map (readRoutes t k)).getD []).insertionSort fun r s => r.sortKey ≤ s.sortKey
  marks :=
    (((t.listRuleset k).map (·.filterMap (·.mark))).getD []).insertionSort fun p q =>
      toLex p ≤ toLex q
  lanOutMarks := []

/-- Every piece of the desired state that is compared is read in the kernel. -/
structure Seen (t : Tools) (k : Kernel) (desired : DesiredState) : Prop where
  shaping : ∀ s ∈ desired.shaping, isIfb s.ifname = false ∧
    (∃ upBps, t.cakeReport k s.ifname = some (upBps, s.diffserv) ∧ close upBps s.upBps = true) ∧
    close ((t.cakeReport k (ifbForIfname s.ifname)).elim 0 (·.1)) s.downBps = true
  routes : ∀ r ∈ desired.routes, t.fails .rules = false ∧ t.fails (.routes r.table) = false ∧
    (∃ rule ∈ k.ipRules, parseInt (t.ruleEntry rule).fwmark = some r.fwmark ∧
      parseInt (t.ruleEntry rule).table = some r.table) ∧
    k.defaultDev r.table = some r.ifname
  marks : ∀ m ∈ desired.marks, t.fails .ruleset = false ∧ ∃ rule ∈ k.nft, rule.mark = some m

end Tools

-- ---------------------------------------------------------------------------
-- Shaping
-- ---------------------------------------------------------------------------

theorem toList_ifbForIfname (ifname : String) : (ifbForIfname ifname).toList =
    "ifb-".toList ++ hexPrefix 8 (Sha256.ofString ifname) :=
  String.toList_ofList

theorem isIfb_ifbForIfname (ifname : String) : isIfb (ifbForIfname ifname) = true := by
  rw [isIfb, toList_ifbForIfname, decide_eq_true_eq]
  exact List.prefix_append _ _

theorem ifbForIfname_ne_empty (ifname : String) : ifbForIfname ifname ≠ "" := by
  intro h
  have hifb := isIfb_ifbForIfname ifname
  rw [h] at hifb
  exact absurd hifb (by decide)

theorem cakeOf_entry (t : Tools) (q : Qdisc) :
    cakeOf (t.qdiscEntry q) =
      if q.kind = "cake" ∧ q.dev ≠ "" then (t.cakeRead q).map fun r => (q.dev, r.1, r.2)
      else none := by
  unfold cakeOf Tools.cakeRead Tools.rateOf Tools.qdiscEntry
  by_cases hkind : q.kind = "cake"
  · by_cases hdev : q.dev = "" <;>
      cases parseRate (q.bandwidth.elim (.str "unlimited") t.bandwidth) <;> simp [hkind, hdev]
  · simp [hkind]

theorem filter_cakeOf (t : Tools) (qs : List Qdisc) (h : dev ≠ "") :
    ((qs.map t.qdiscEntry).filterMap cakeOf).filter (·.1 = dev) =
      ((qs.filter fun q => q.dev = dev ∧ q.kind = "cake").filterMap t.cakeRead).map
        fun r => (dev, r.1, r.2) := by
  rw [List.filterMap_map, List.filter_filterMap, List.filterMap_filter, List.map_filterMap]
  refine List.filterMap_congr fun q _ => ?_
  rw [Function.comp_apply, cakeOf_entry]
  by_cases hkind : q.kind = "cake"
  · by_cases hdev : q.dev = dev
    · cases t.cakeRead q <;> simp [hkind, hdev, h]
    · by_cases hempty : q.dev = "" <;> cases t.cakeRead q <;> simp [hkind, hdev, hempty, h.symm]
  · simp [hkind]

theorem get?_cakeByDev {t : Tools} {k : Kernel} (hf : t.fails .qdiscs = false) (h : dev ≠ "") :
    (cakeByDev (k.qdiscs.map t.qdiscEntry)).get? dev =
      (t.cakeReport k dev).map fun r => (dev, r.1, r.2) := by
  rw [cakeByDev, Keyed.get?_ofList, filter_cakeOf t k.qdiscs h, List.getLast?_map,
    Tools.cakeReport, if_neg (by simp [hf, h]), Kernel.cakesOn]

theorem ne_empty_of_mem_cakeByDev {t : Tools} {qs : List Qdisc}
    (h : c ∈ (cakeByDev (qs.map t.qdiscEntry)).values) : c.1 ≠ "" := by
  rw [Keyed.mem_values, cakeByDev, Keyed.get?_ofList] at h
  obtain ⟨q', hq', hc⟩ := List.mem_filterMap.mp (List.mem_of_mem_filter (List.mem_of_getLast? h))
  obtain ⟨q, hq, rfl⟩ := List.mem_map.mp hq'
  rw [cakeOf_entry] at hc
  split at hc
  · rename_i hq
    obtain ⟨r, -, rfl⟩ := Option.map_eq_some_iff.mp hc
    exact hq.2
  · cases hc

theorem downBpsOf_eq {t : Tools} {k : Kernel} (hf : t.fails .qdiscs = false) (dev : String) :
    downBpsOf (k.qdiscs.map t.qdiscEntry) dev =
      (t.cakeReport k (ifbForIfname dev)).elim 0 (·.1) := by
  rw [downBpsOf, get?_cakeByDev hf (ifbForIfname_ne_empty dev)]
  cases t.cakeReport k (ifbForIfname dev) <;> rfl

theorem mem_readShaping {entries : List QdiscEntry} : s ∈ readShaping entries ↔
    isIfb s.ifname = false ∧
      (cakeByDev entries).get? s.ifname = some (s.ifname, s.upBps, s.diffserv) ∧
      s.downBps = downBpsOf entries s.ifname := by
  simp only [readShaping, List.mem_map, List.mem_filter, Keyed.mem_values, Bool.not_eq_true']
  constructor
  · rintro ⟨c, ⟨hget, hifb⟩, rfl⟩
    exact ⟨hifb, hget, rfl⟩
  · rintro ⟨hifb, hget, hdown⟩
    exact ⟨(s.ifname, s.upBps, s.diffserv), ⟨hget, hifb⟩, by simp [← hdown]⟩

theorem nodup_readShaping (entries : List QdiscEntry) :
    ((readShaping entries).map (·.ifname)).Nodup := by
  have hmap : (readShaping entries).map (·.ifname) =
      ((cakeByDev entries).values.filter fun c => !isIfb c.1).map Prod.fst := by
    rw [readShaping, List.map_map]
    rfl
  rw [hmap]
  exact (cakeByDev entries).nodup.sublist (List.filter_sublist.map Prod.fst)

theorem mem_shaping_reading {t : Tools} {k : Kernel} :
    s ∈ (t.reading k).shaping ↔
      isIfb s.ifname = false ∧ t.cakeReport k s.ifname = some (s.upBps, s.diffserv) ∧
        s.downBps = (t.cakeReport k (ifbForIfname s.ifname)).elim 0 (·.1) := by
  rw [Tools.reading, (List.perm_insertionSort _ _).mem_iff]
  cases hf : t.fails .qdiscs with
  | true => simp [Tools.qdiscShow, Tools.cakeReport, hf]
  | false =>
    simp only [Tools.qdiscShow, hf, Bool.false_eq_true, if_false, Option.map_some, Option.getD_some,
      mem_readShaping, downBpsOf_eq hf]
    refine and_congr_right fun _ => and_congr_left fun _ => ?_
    by_cases hempty : s.ifname = ""
    · constructor
      · intro h
        exact absurd hempty (ne_empty_of_mem_cakeByDev (Keyed.get?_eq_some.mp h).1)
      · intro h
        simp [Tools.cakeReport, hempty] at h
    · rw [get?_cakeByDev hf hempty]
      cases t.cakeReport k s.ifname <;> simp [Prod.ext_iff]

theorem nodup_shaping_reading (t : Tools) (k : Kernel) :
    ((t.reading k).shaping.map (·.ifname)).Nodup := by
  rw [Tools.reading, ((List.perm_insertionSort _ _).map _).nodup_iff]
  cases t.qdiscShow k with
  | none => exact .nil
  | some entries => exact nodup_readShaping entries

theorem shapingConverged_iff {t : Tools} {k : Kernel} (want : Shaping) :
    shapingConverged ((Keyed.ofList (t.reading k).shaping : Keyed Shaping (·.ifname)).get?
        want.ifname) want = true ↔
      isIfb want.ifname = false ∧
        (∃ upBps, t.cakeReport k want.ifname = some (upBps, want.diffserv) ∧
          close upBps want.upBps = true) ∧
        close ((t.cakeReport k (ifbForIfname want.ifname)).elim 0 (·.1)) want.downBps = true := by
  have hget : ∀ s, (Keyed.ofList (t.reading k).shaping : Keyed Shaping (·.ifname)).get?
      want.ifname = some s ↔ s ∈ (t.reading k).shaping ∧ s.ifname = want.ifname := by
    intro s
    rw [Keyed.get?_eq_some, Keyed.values_ofList (nodup_shaping_reading t k)]
  constructor
  · intro h
    cases hs : (Keyed.ofList (t.reading k).shaping : Keyed Shaping (·.ifname)).get?
        want.ifname with
    | none => simp [hs, shapingConverged] at h
    | some s =>
      simp only [hs, shapingConverged, Bool.and_eq_true, decide_eq_true_eq] at h
      obtain ⟨⟨hclass, hup⟩, hdown⟩ := h
      obtain ⟨hmem, hname⟩ := (hget s).mp hs
      obtain ⟨hifb, hreport, hifbReport⟩ := mem_shaping_reading.mp hmem
      rw [hname] at hifb hreport hifbReport
      exact ⟨hifb, ⟨s.upBps, by rw [hreport, hclass], hup⟩, by rw [← hifbReport]; exact hdown⟩
  · rintro ⟨hifb, ⟨upBps, hup, hclose⟩, hdown⟩
    have hs := (hget ⟨want.ifname, (t.cakeReport k (ifbForIfname want.ifname)).elim 0 (·.1), upBps,
      want.diffserv⟩).mpr ⟨mem_shaping_reading.mpr ⟨hifb, hup, rfl⟩, rfl⟩
    simp only [hs, shapingConverged, decide_true, Bool.true_and, Bool.and_eq_true]
    exact ⟨hclose, hdown⟩

-- ---------------------------------------------------------------------------
-- Routes and marks
-- ---------------------------------------------------------------------------

theorem readTableDefaultDev_eq_some {t : Tools} {k : Kernel} :
    readTableDefaultDev t k table = some dev ↔
      t.fails (.routes table) = false ∧ k.defaultDev table = some dev := by
  unfold readTableDefaultDev Tools.routeShow Kernel.defaultDev
  cases t.fails (.routes table) <;> simp

theorem mem_routes_reading {t : Tools} {k : Kernel} :
    r ∈ (t.reading k).routes ↔
      t.fails .rules = false ∧ t.fails (.routes r.table) = false ∧
        (∃ rule ∈ k.ipRules, parseInt (t.ruleEntry rule).fwmark = some r.fwmark ∧
          parseInt (t.ruleEntry rule).table = some r.table) ∧
        k.defaultDev r.table = some r.ifname := by
  rw [Tools.reading, (List.perm_insertionSort _ _).mem_iff]
  cases hf : t.fails .rules with
  | true => simp [Tools.ruleShow, hf]
  | false =>
    simp only [Tools.ruleShow, hf, Bool.false_eq_true, if_false, Option.map_some, Option.getD_some,
      readRoutes, List.mem_filterMap, List.mem_map, Option.bind_eq_some_iff, Option.map_eq_some_iff,
      readTableDefaultDev_eq_some, true_and]
    constructor
    · rintro ⟨-, ⟨rule, hrule, rfl⟩, fwmark, hfwmark, table, htable, dev, ⟨hread, hdev⟩, rfl⟩
      exact ⟨hread, ⟨rule, hrule, hfwmark, htable⟩, hdev⟩
    · rintro ⟨hread, ⟨rule, hrule, hfwmark, htable⟩, hdev⟩
      exact ⟨_, ⟨rule, hrule, rfl⟩, r.fwmark, hfwmark, r.table, htable, r.ifname,
        ⟨hread, hdev⟩, rfl⟩

theorem mem_marks_reading {t : Tools} {k : Kernel} :
    m ∈ (t.reading k).marks ↔ t.fails .ruleset = false ∧ ∃ rule ∈ k.nft, rule.mark = some m := by
  rw [Tools.reading, (List.perm_insertionSort _ _).mem_iff, Tools.listRuleset]
  cases t.fails .ruleset <;> simp

theorem readMarks_eq_ok {rules : List NftRule} : readMarks rules = .ok marks ↔
    (∀ rule ∈ rules, rule.unreadable = false) ∧ marks = rules.filterMap (·.mark) := by
  unfold readMarks
  cases hf : rules.find? (·.unreadable) with
  | none =>
    have hall : ∀ rule ∈ rules, rule.unreadable = false := by simpa using hf
    simp only [Except.ok.injEq]
    exact ⟨fun h => ⟨hall, h.symm⟩, fun h => h.2.symm⟩
  | some rule =>
    have hmem := List.mem_of_find?_eq_some hf
    have htrue := List.find?_some hf
    simp only [reduceCtorEq, false_iff, not_and]
    intro h
    simp [h rule hmem] at htrue

-- ---------------------------------------------------------------------------
-- Nothing left to do
-- ---------------------------------------------------------------------------

theorem converged_none (desired : DesiredState) :
    converged none desired = converged (some ⟨[], [], [], []⟩) desired := by
  obtain ⟨shaping, routes, marks, lanOutMarks⟩ := desired
  cases shaping <;> cases routes <;> cases marks <;>
    simp [converged, shapingConverged, Keyed.ofList, Keyed.putAll]

theorem readActual_ok {t : Tools} {k : Kernel} (h : t.Readable k) :
    ∃ current, readActual t k = .ok current ∧
      ∀ desired, converged current desired = converged (some (t.reading k)) desired := by
  have hmarks : (t.listRuleset k).elim (.ok none) (fun rules => (readMarks rules).map some) =
      .ok ((t.listRuleset k).map (·.filterMap (·.mark))) := by
    unfold Tools.listRuleset
    rcases h with h | h
    · simp [h]
    · split
      · rfl
      · simp [readMarks_eq_ok.mpr ⟨h, rfl⟩, Except.map]
  simp only [readActual, hmarks]
  split
  · rename_i hnone
    refine ⟨none, rfl, fun desired => ?_⟩
    obtain ⟨hshaping, hmarks, hroutes⟩ := hnone
    rw [converged_none, Tools.reading, hshaping, hmarks, hroutes]
    rfl
  · exact ⟨_, rfl, fun _ => rfl⟩

theorem readActual_error {t : Tools} {k : Kernel} (h : ¬t.Readable k) :
    ∃ e, readActual t k = .error e := by
  obtain ⟨hf, hraise⟩ := not_or.mp h
  rw [Bool.not_eq_true] at hf
  cases hm : readMarks k.nft with
  | ok marks => exact absurd (readMarks_eq_ok.mp hm).1 hraise
  | error e => exact ⟨e, by simp [readActual, Tools.listRuleset, hf, hm, Except.map]⟩

theorem converged_reading {t : Tools} {k : Kernel} :
    converged (some (t.reading k)) desired = true ↔ t.Seen k desired := by
  simp only [converged, Bool.and_eq_true, List.all_eq_true, decide_eq_true_eq,
    mem_routes_reading, mem_marks_reading]
  constructor
  · rintro ⟨⟨hs, hr⟩, hm⟩
    exact ⟨fun s h => shapingConverged_iff s |>.mp (hs s h), hr, hm⟩
  · intro h
    exact ⟨⟨fun s hs => (shapingConverged_iff s).mpr (h.shaping s hs), h.routes⟩, h.marks⟩

namespace LinuxEnforcer

theorem apply_ne_nil (e : LinuxEnforcer) (desired : DesiredState) : e.apply desired ≠ [] := by
  simp [apply, applyMarks]

/-- No command is issued exactly when the reading does not raise and finds
every piece it compares. -/
theorem reconcile_eq_nil {e : LinuxEnforcer} {t : Tools} {k : Kernel} :
    e.reconcile t k desired = .ok [] ↔ t.Readable k ∧ t.Seen k desired := by
  by_cases hr : t.Readable k
  · obtain ⟨current, hc, hconv⟩ := readActual_ok hr
    simp only [reconcile, hc, Except.map, Except.ok.injEq, hr, true_and, hconv,
      ← converged_reading]
    split
    · rename_i h; simp [h]
    · rename_i h; simp [h, e.apply_ne_nil desired]
  · obtain ⟨err, he⟩ := readActual_error hr
    simp [reconcile, he, Except.map, hr]

theorem reconcile_eq_apply {e : LinuxEnforcer} {t : Tools} {k : Kernel} (hr : t.Readable k)
    (hs : ¬t.Seen k desired) : e.reconcile t k desired = .ok (e.apply desired) := by
  obtain ⟨current, hc, hconv⟩ := readActual_ok hr
  have hn : converged (some (t.reading k)) desired = false := by
    rw [← Bool.not_eq_true, converged_reading]
    exact hs
  simp [reconcile, hc, Except.map, hconv, hn]

end LinuxEnforcer

end Wifucked
