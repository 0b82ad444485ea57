import Mathlib.Data.List.SplitBy
import Wifucked.Lib.Runs
import Wifucked.Netmon.Watching

/-!
# The public address

The monitor looks the public address up once a minute, and records what it
found, or that nothing answered. The periods of a window are the addresses that
were held one after another; a lookup that nothing answered ends none of them.
The address the monitor shows is that of the newest period.
-/

namespace Wifucked.Netmon

-- ---------------------------------------------------------------------------
-- The table
-- ---------------------------------------------------------------------------

structure IpSample (K : Type) where
  ts : K
  ip : Option String
  deriving DecidableEq, Repr

structure IpPeriod (K : Type) where
  ip : String
  startedTs : K
  endedTs : Option K
  durationS : K
  ongoing : Bool
  deriving DecidableEq, Repr

/-- What the loop of `query_ip_periods` carries along. -/
structure Holding (K : Type) where
  periods : List (IpPeriod K)
  currentIp : Option String
  currentStart : Option K
  lastTs : Option K

variable {K : Type}

section

variable [LinearOrder K]

def ipsSelected (table : List (IpSample K)) (tsFrom tsTo : K) : List (IpSample K) :=
  table.filter fun s => tsFrom ≤ s.ts && s.ts ≤ tsTo

def ipsInOrder (table : List (IpSample K)) (tsFrom tsTo : K) : List (IpSample K) :=
  (ipsSelected table tsFrom tsTo).insertionSort fun s t => s.ts ≤ t.ts

end

section

variable [Field K] [LinearOrder K] [FloorRing K]

/-- One round of the loop. A difference with `None` raises, which is `none` here. -/
def ipRow (h : Holding K) (s : IpSample K) : Option (Holding K) :=
  match s.ip with
  | none => some h
  | some ip =>
    match h.currentIp with
    | none => some { h with currentIp := some ip, currentStart := some s.ts, lastTs := some s.ts }
    | some current =>
      if ip = current then some { h with lastTs := some s.ts }
      else
        h.lastTs.bind fun last =>
          h.currentStart.map fun start =>
            { periods := h.periods ++
                [⟨current, start, some last, rounded 1 (last - start), false⟩]
              currentIp := some ip
              currentStart := some s.ts
              lastTs := some s.ts }

/-- A `last_ts` of zero counts as none. -/
def lastPeriod (ip : String) (start : K) (lastTs : Option K) : IpPeriod K where
  ip := ip
  startedTs := start
  endedTs := lastTs
  durationS :=
    match lastTs with
    | none => 0
    | some last => if last = 0 then 0 else rounded 1 (last - start)
  ongoing := true

def queryIpPeriods (table : List (IpSample K)) (tsFrom tsTo : K) : Option (List (IpPeriod K)) := do
  let h ← (ipsInOrder table tsFrom tsTo).foldlM ipRow ⟨[], none, none, none⟩
  match h.currentIp with
  | none => some h.periods.reverse
  | some ip => do
    let start ← h.currentStart
    some (h.periods ++ [lastPeriod ip start h.lastTs]).reverse

end

-- ---------------------------------------------------------------------------
-- The monitor
-- ---------------------------------------------------------------------------

def publicIpHistoryLen : ℕ := 1440

structure PublicIpMonitor (K : Type) where
  currentIp : Option String
  lastChangeTs : Option K
  history : List (IpSample K)
  deriving DecidableEq, Repr

def PublicIpMonitor.new : PublicIpMonitor K := ⟨none, none, []⟩

/-- What `_run` does with a lookup under its lock. -/
def PublicIpMonitor.sample (m : PublicIpMonitor K) (s : IpSample K) : PublicIpMonitor K :=
  let changed : Bool := s.ip.isSome && s.ip ≠ m.currentIp
  { history := (m.history ++ [s]).rtake publicIpHistoryLen
    currentIp := if changed then s.ip else m.currentIp
    lastChangeTs := if changed then some s.ts else m.lastChangeTs }

/-- A lookup that the thread has not recorded yet, and the address before it. -/
structure Lookup (K : Type) where
  sample : IpSample K
  previousIp : Option String
  deriving DecidableEq, Repr

/-- The change that is logged, from an address to another. -/
def Lookup.change (l : Lookup K) : Option (String × String) :=
  match l.previousIp, l.sample.ip with
  | some previous, some ip => if ip = previous then none else some (previous, ip)
  | _, _ => none

/-- The monitor's thread, its table, and the changes in the log. -/
structure IpWatched (K : Type) where
  monitor : PublicIpMonitor K
  pending : Option (Lookup K)
  table : List (IpSample K)
  log : List (String × String)
  deriving DecidableEq, Repr

inductive IpTurn (K : Type) where
  /-- A lookup ends: with an address, or nothing answered. -/
  | lookup (now : K) (ip : Option String)
  /-- The thread comes to `record_public_ip`, and logs. -/
  | record

def ipTurn (w : IpWatched K) : IpTurn K → IpWatched K
  | .lookup now ip =>
    match w.pending with
    | none =>
      { w with
        monitor := w.monitor.sample ⟨now, ip⟩
        pending := some ⟨⟨now, ip⟩, w.monitor.currentIp⟩ }
    | some _ => w
  | .record =>
    { w with
      pending := none
      table := w.table ++ (w.pending.map Lookup.sample).toList
      log := w.log ++ (w.pending.bind Lookup.change).toList }

-- ---------------------------------------------------------------------------
-- The addresses one after another
-- ---------------------------------------------------------------------------

/-- The lookups that were answered, those of one address in a row together. -/
def ipGroups (rows : List (IpSample K)) : List (List (IpSample K)) :=
  (rows.filter (·.ip.isSome)).splitBy fun s t => s.ip = t.ip

theorem ipGroups_concat_none {s : IpSample K} (h : s.ip = none) (rows : List (IpSample K)) :
    ipGroups (rows ++ [s]) = ipGroups rows := by
  simp [ipGroups, h]

theorem ipGroups_concat_some {s : IpSample K} (h : s.ip = some ip) (rows : List (IpSample K)) :
    (ipGroups rows = [] ∧ ipGroups (rows ++ [s]) = [[s]]) ∨
      ∃ groups group last, ipGroups rows = groups ++ [group ++ [last]] ∧
        ipGroups (rows ++ [s]) = if last.ip = s.ip then groups ++ [group ++ [last, s]]
          else groups ++ [group ++ [last], [s]] := by
  have hfilter : (rows ++ [s]).filter (·.ip.isSome) = rows.filter (·.ip.isSome) ++ [s] := by
    simp [h]
  cases hlast : (rows.filter (·.ip.isSome)).getLast? with
  | none =>
    have hnil := List.getLast?_eq_none_iff.mp hlast
    refine .inl ⟨by rw [ipGroups, hnil, List.splitBy_nil], ?_⟩
    rw [ipGroups, hfilter, hnil]
    rfl
  | some last =>
    obtain ⟨groups, group, hgroups⟩ :=
      Stretch.splitBy_eq_concat (fun s t : IpSample K => s.ip = t.ip) hlast
    refine .inr ⟨groups, group, last, hgroups, ?_⟩
    rw [ipGroups, hfilter]
    split
    · rename_i hsame
      exact Stretch.splitBy_concat_of_pos hgroups (by simpa using hsame)
    · rename_i hother
      rw [Stretch.splitBy_concat_of_neg, hgroups, List.append_assoc]
      · rfl
      · intro b hb
        obtain rfl : last = b := Option.some.inj (hlast.symm.trans hb)
        simpa using hother

theorem ne_nil_of_mem_ipGroups {rows group : List (IpSample K)} (h : group ∈ ipGroups rows) :
    group ≠ [] :=
  List.ne_nil_of_mem_splitBy h

theorem flatten_ipGroups (rows : List (IpSample K)) :
    (ipGroups rows).flatten = rows.filter (·.ip.isSome) :=
  List.flatten_splitBy _ _

theorem mem_of_mem_ipGroups {rows group : List (IpSample K)} (h : group ∈ ipGroups rows)
    {s : IpSample K} (hs : s ∈ group) : s ∈ rows ∧ s.ip.isSome = true := by
  have hmem : s ∈ (ipGroups rows).flatten := List.mem_flatten.mpr ⟨group, h, hs⟩
  rw [flatten_ipGroups] at hmem
  exact List.mem_filter.mp hmem

theorem same_ip {rows group : List (IpSample K)} (h : group ∈ ipGroups rows) {s t : IpSample K}
    (hs : s ∈ group) (ht : t ∈ group) : s.ip = t.ip := by
  have hchain : group.IsChain fun s t => s.ip = t.ip :=
    (List.isChain_of_mem_splitBy h).imp fun _ _ hst => by simpa using hst
  have hpairwise : group.Pairwise fun s t => s.ip = t.ip := by
    have : IsTrans (IpSample K) fun s t => s.ip = t.ip := ⟨fun _ _ _ => Eq.trans⟩
    exact List.isChain_iff_pairwise.mp hchain
  have hsymm : Std.Symm fun s t : IpSample K => s.ip = t.ip := ⟨fun _ _ => Eq.symm⟩
  exact List.Pairwise.forall_of_forall (R := fun s t : IpSample K => s.ip = t.ip)
    (fun _ _ => rfl) hpairwise hs ht

/-- What the loop knows of the last group. -/
structure Current (K : Type) where
  ip : String
  start : K
  last : K

def currentOf (group : List (IpSample K)) : Option (Current K) :=
  match group.head?, group.getLast? with
  | some first, some last => first.ip.map fun ip => ⟨ip, first.ts, last.ts⟩
  | _, _ => none

theorem currentOf_eq_some {group : List (IpSample K)} {c : Current K} :
    currentOf group = some c ↔ ∃ first last, group.head? = some first ∧
      group.getLast? = some last ∧ first.ip = some c.ip ∧ first.ts = c.start ∧
        last.ts = c.last := by
  unfold currentOf
  cases group.head? with
  | none => simp
  | some first =>
    cases group.getLast? with
    | none => simp
    | some last =>
      rcases c with ⟨ip, start, ts⟩
      cases hip : first.ip <;> simp [hip]

theorem currentOf_singleton {s : IpSample K} (h : s.ip = some ip) :
    currentOf [s] = some ⟨ip, s.ts, s.ts⟩ := by
  simp [currentOf, h]

theorem currentOf_concat {group : List (IpSample K)} {last s : IpSample K} {c : Current K}
    (h : currentOf (group ++ [last]) = some c) :
    currentOf (group ++ [last, s]) = some { c with last := s.ts } := by
  obtain ⟨first, _, hfirst, -, hip, hstart, -⟩ := currentOf_eq_some.mp h
  refine currentOf_eq_some.mpr ⟨first, s, ?_, by simp, hip, hstart, rfl⟩
  rw [← hfirst]
  cases group <;> rfl

theorem currentOf_of_mem {rows group : List (IpSample K)} (h : group ∈ ipGroups rows) :
    ∃ c, currentOf group = some c ∧ ∀ s ∈ group, s.ip = some c.ip := by
  obtain ⟨first, rest, rfl⟩ := List.exists_cons_of_ne_nil (ne_nil_of_mem_ipGroups h)
  have hfirst : first ∈ first :: rest := List.mem_cons_self
  obtain ⟨ip, hip⟩ := Option.isSome_iff_exists.mp (mem_of_mem_ipGroups h hfirst).2
  have hlast : (first :: rest).getLast? = some ((first :: rest).getLast (by simp)) :=
    List.getLast?_eq_some_getLast (by simp)
  refine ⟨⟨ip, first.ts, ((first :: rest).getLast (by simp)).ts⟩,
    currentOf_eq_some.mpr ⟨first, _, rfl, hlast, hip, rfl, rfl⟩, fun s hs => ?_⟩
  rw [same_ip h hs hfirst, hip]

def currentIn (groups : List (List (IpSample K))) : Option (Current K) :=
  groups.getLast?.bind currentOf

def ipsOf (groups : List (List (IpSample K))) : List String :=
  groups.filterMap fun g => (currentOf g).map Current.ip

theorem currentIn_concat (groups : List (List (IpSample K))) (group : List (IpSample K)) :
    currentIn (groups ++ [group]) = currentOf group := by
  simp [currentIn]

theorem ipsOf_concat {group : List (IpSample K)} (h : currentOf group = some c)
    (groups : List (List (IpSample K))) : ipsOf (groups ++ [group]) = ipsOf groups ++ [c.ip] := by
  simp [ipsOf, h]

theorem ipGroups_next (rows : List (IpSample K)) (s : IpSample K) (hip : s.ip = some ip) :
    if (currentIn (ipGroups rows)).map Current.ip = some ip then
      currentIn (ipGroups (rows ++ [s])) =
          (currentIn (ipGroups rows)).map (fun c => { c with last := s.ts }) ∧
        ipsOf (ipGroups (rows ++ [s])) = ipsOf (ipGroups rows)
    else
      currentIn (ipGroups (rows ++ [s])) = some ⟨ip, s.ts, s.ts⟩ ∧
        ipsOf (ipGroups (rows ++ [s])) = ipsOf (ipGroups rows) ++ [ip] := by
  have hone := currentOf_singleton hip
  rcases ipGroups_concat_some hip rows with
    ⟨hnil, hgroups⟩ | ⟨groups, group, last, hlast, hgroups⟩
  · rw [hnil, hgroups]
    exact ⟨hone, ipsOf_concat hone []⟩
  · have hmem : group ++ [last] ∈ ipGroups rows := by simp [hlast]
    obtain ⟨c, hc, hips⟩ := currentOf_of_mem hmem
    have hcip : last.ip = some c.ip := hips last (by simp)
    rw [hlast, hgroups, hcip, hip, currentIn_concat, hc, Option.map_some]
    by_cases hsame : c.ip = ip
    · have hjoin := currentOf_concat (s := s) hc
      simp [hsame, currentIn_concat, hjoin, ipsOf_concat hjoin, ipsOf_concat hc]
    · have hsplit : groups ++ [group ++ [last], [s]] = (groups ++ [group ++ [last]]) ++ [[s]] := by
        simp
      have hother : some c.ip ≠ some ip := by simpa using hsame
      rw [if_neg hother, if_neg hother, hsplit, currentIn_concat]
      exact ⟨hone, ipsOf_concat hone _⟩

-- ---------------------------------------------------------------------------
-- What the periods are
-- ---------------------------------------------------------------------------

/-- The period is of these lookups, from the first to the last. -/
def PeriodOf (group : List (IpSample K)) (p : IpPeriod K) : Prop :=
  ∃ c, currentOf group = some c ∧ p.ip = c.ip ∧ p.startedTs = c.start ∧ p.endedTs = some c.last ∧
    ∀ s ∈ group, s.ip = some c.ip

/-- A period's bounds are lookups of its group, all of which found its address. -/
theorem bounds_of_period {group : List (IpSample K)} {p : IpPeriod K} (hp : PeriodOf group p) :
    ∃ first last, group.head? = some first ∧ group.getLast? = some last ∧
      p.startedTs = first.ts ∧ p.endedTs = some last.ts ∧ ∀ s ∈ group, s.ip = some p.ip := by
  obtain ⟨c, hc, hip, hstarted, hended, hips⟩ := hp
  obtain ⟨first, last, hfirst, hlast, -, hstart, hlastTs⟩ := currentOf_eq_some.mp hc
  exact ⟨first, last, hfirst, hlast, by rw [hstarted, hstart], by rw [hended, hlastTs],
    by rw [hip]; exact hips⟩

section

variable [LinearOrder K] {rows group : List (IpSample K)} {p : IpPeriod K}

def IpPeriod.Contains (p : IpPeriod K) (ts : K) : Prop :=
  ∃ ended, p.endedTs = some ended ∧ p.startedTs ≤ ts ∧ ts ≤ ended

/-- What the periods of some rows are, the newest first. -/
structure IpPeriods (rows : List (IpSample K)) (periods : List (IpPeriod K)) : Prop where
  /-- A lookup found the address of a period at its time, and of no other. -/
  held : ∀ s ∈ rows, ∀ ip, s.ip = some ip → ∃ p ∈ periods, p.Contains s.ts
  only : ∀ s ∈ rows, ∀ p ∈ periods, p.Contains s.ts → s.ip = none ∨ s.ip = some p.ip
  /-- A period begins and ends with lookups that found its address. -/
  bounds : ∀ p ∈ periods, ∃ first ∈ rows, ∃ last ∈ rows, first.ip = some p.ip ∧
    last.ip = some p.ip ∧ p.startedTs = first.ts ∧ p.endedTs = some last.ts
  changes : periods.IsChain fun newer older => newer.ip ≠ older.ip
  disjoint : periods.Pairwise fun newer older =>
    ∃ ended, older.endedTs = some ended ∧ ended < newer.startedTs
  ongoing : ∀ p ∈ periods.head?, p.ongoing = true
  ended : ∀ p ∈ periods.tail, p.ongoing = false

def IpsOrdered (rows : List (IpSample K)) : Prop := rows.Pairwise fun s t => s.ts < t.ts

theorem pairwise_ipGroups (h : IpsOrdered rows) :
    (∀ g ∈ ipGroups rows, IpsOrdered g) ∧
      (ipGroups rows).Pairwise fun g g' => ∀ s ∈ g, ∀ t ∈ g', s.ts < t.ts := by
  have hfilter : (ipGroups rows).flatten.Pairwise fun s t => s.ts < t.ts := by
    rw [flatten_ipGroups]
    exact h.filter _
  exact List.pairwise_flatten.mp hfilter

theorem IpsOrdered.between (h : IpsOrdered group) {first last s : IpSample K}
    (hfirst : group.head? = some first) (hlast : group.getLast? = some last) (hs : s ∈ group) :
    first.ts ≤ s.ts ∧ s.ts ≤ last.ts := by
  constructor
  · obtain ⟨rest, rfl⟩ := List.head?_eq_some_iff.mp hfirst
    rcases List.mem_cons.mp hs with rfl | hs
    · exact le_rfl
    · exact ((List.pairwise_cons.mp h).1 s hs).le
  · obtain ⟨init, rfl⟩ := List.getLast?_eq_some_iff.mp hlast
    rcases List.mem_append.mp hs with hs | hs
    · exact ((List.pairwise_append.mp h).2.2 s hs last (by simp)).le
    · rw [List.mem_singleton.mp hs]

theorem contains_iff_mem (h : IpsOrdered rows) (hg : group ∈ ipGroups rows)
    (hp : PeriodOf group p) {s : IpSample K} (hs : s ∈ rows) (hip : s.ip.isSome = true) :
    p.Contains s.ts ↔ s ∈ group := by
  obtain ⟨first, last, hfirst, hlast, hstarted, hended, -⟩ := bounds_of_period hp
  obtain ⟨hgroups, hapart⟩ := pairwise_ipGroups h
  have hcontains : p.Contains s.ts ↔ first.ts ≤ s.ts ∧ s.ts ≤ last.ts := by
    simp [IpPeriod.Contains, hended, hstarted]
  rw [hcontains]
  constructor
  · rintro ⟨hlo, hhi⟩
    obtain ⟨other, hother, hsother⟩ : ∃ other ∈ ipGroups rows, s ∈ other := by
      rw [← List.mem_flatten, flatten_ipGroups]
      exact List.mem_filter.mpr ⟨hs, hip⟩
    by_contra hnot
    have hne : other ≠ group := fun heq => hnot (heq ▸ hsother)
    have hsymm : Std.Symm fun g g' : List (IpSample K) =>
        (∀ s ∈ g, ∀ t ∈ g', s.ts < t.ts) ∨ ∀ s ∈ g', ∀ t ∈ g, s.ts < t.ts :=
      ⟨fun _ _ => Or.symm⟩
    have heither : (ipGroups rows).Pairwise fun g g' =>
        (∀ s ∈ g, ∀ t ∈ g', s.ts < t.ts) ∨ ∀ s ∈ g', ∀ t ∈ g, s.ts < t.ts :=
      hapart.imp fun hlt => .inl hlt
    rcases heither.forall hother hg hne with hlt | hlt
    · exact absurd (hlt s hsother first (List.mem_of_head? hfirst)) hlo.not_gt
    · exact absurd (hlt last (List.mem_of_getLast? hlast) s hsother) hhi.not_gt
  · exact fun hmem => (hgroups group hg).between hfirst hlast hmem

end

-- ---------------------------------------------------------------------------
-- The loop
-- ---------------------------------------------------------------------------

section

variable [Field K] [LinearOrder K] [FloorRing K]

def overPeriod (group : List (IpSample K)) : Option (IpPeriod K) :=
  (currentOf group).map fun c => ⟨c.ip, c.start, some c.last, rounded 1 (c.last - c.start), false⟩

/-- What the loop carries along where the lookups are in these groups. -/
def holdingOf (groups : List (List (IpSample K))) : Holding K where
  periods := groups.dropLast.filterMap overPeriod
  currentIp := (currentIn groups).map Current.ip
  currentStart := (currentIn groups).map Current.start
  lastTs := (currentIn groups).map Current.last

theorem holdingOf_concat {group : List (IpSample K)} (h : currentOf group = some c)
    (groups : List (List (IpSample K))) :
    holdingOf (groups ++ [group]) =
      ⟨groups.filterMap overPeriod, some c.ip, some c.start, some c.last⟩ := by
  simp [holdingOf, currentIn, h]

theorem ipRow_holdingOf (rows : List (IpSample K)) (s : IpSample K) :
    ipRow (holdingOf (ipGroups rows)) s = some (holdingOf (ipGroups (rows ++ [s]))) := by
  cases hip : s.ip with
  | none =>
    rw [ipGroups_concat_none hip]
    simp [ipRow, hip]
  | some ip =>
    rcases ipGroups_concat_some hip rows with
      ⟨hnil, hgroups⟩ | ⟨groups, group, last, hlast, hgroups⟩
    · have hone : holdingOf [[s]] = ⟨[], some ip, some s.ts, some s.ts⟩ :=
        holdingOf_concat (currentOf_singleton hip) []
      rw [hgroups, hnil, hone]
      simp [ipRow, hip, holdingOf, currentIn]
    · have hmem : group ++ [last] ∈ ipGroups rows := by simp [hlast]
      obtain ⟨c, hc, hcips⟩ := currentOf_of_mem hmem
      have hcip : last.ip = some c.ip := hcips last (by simp)
      rw [hlast, hgroups, holdingOf_concat hc, hcip, hip]
      by_cases hsame : ip = c.ip
      · subst hsame
        rw [if_pos rfl, holdingOf_concat (currentOf_concat hc)]
        simp [ipRow, hip]
      · rw [if_neg fun h => hsame (Option.some.inj h).symm]
        have hsplit : groups ++ [group ++ [last], [s]] =
            (groups ++ [group ++ [last]]) ++ [[s]] := by simp
        rw [hsplit, holdingOf_concat (currentOf_singleton hip)]
        simp [ipRow, hip, hsame, overPeriod, hc]

/-- The loop keeps the periods that are over, and what it knows of the current one. -/
theorem foldlM_ipRow (rows : List (IpSample K)) :
    rows.foldlM ipRow ⟨[], none, none, none⟩ = some (holdingOf (ipGroups rows)) := by
  induction rows using List.reverseRecOn with
  | nil => rfl
  | append_singleton rows s ih =>
    rw [List.foldlM_append, ih]
    simp [ipRow_holdingOf]

def periodsOf (groups : List (List (IpSample K))) : List (IpPeriod K) :=
  groups.dropLast.filterMap overPeriod ++
    ((currentIn groups).map fun c => lastPeriod c.ip c.start (some c.last)).toList

theorem queryIpPeriods_eq (table : List (IpSample K)) (tsFrom tsTo : K) :
    queryIpPeriods table tsFrom tsTo =
      some (periodsOf (ipGroups (ipsInOrder table tsFrom tsTo))).reverse := by
  rw [queryIpPeriods, foldlM_ipRow, periodsOf]
  cases h : currentIn (ipGroups (ipsInOrder table tsFrom tsTo)) <;> simp [holdingOf, h]

-- ---------------------------------------------------------------------------
-- The periods that are found
-- ---------------------------------------------------------------------------

theorem forall₂_overPeriod {groups : List (List (IpSample K))}
    (h : ∀ g ∈ groups, ∃ c, currentOf g = some c ∧ ∀ s ∈ g, s.ip = some c.ip) :
    List.Forall₂ PeriodOf groups (groups.filterMap overPeriod) := by
  induction groups with
  | nil => exact .nil
  | cons g groups ih =>
    rw [List.forall_mem_cons] at h
    obtain ⟨c, hc, hips⟩ := h.1
    have hperiod : overPeriod g =
        some ⟨c.ip, c.start, some c.last, rounded 1 (c.last - c.start), false⟩ := by
      simp [overPeriod, hc]
    rw [List.filterMap_cons_some hperiod]
    exact .cons ⟨c, hc, rfl, rfl, rfl, hips⟩ (ih h.2)

theorem forall₂_periodsOf {groups : List (List (IpSample K))}
    (h : ∀ g ∈ groups, ∃ c, currentOf g = some c ∧ ∀ s ∈ g, s.ip = some c.ip) :
    List.Forall₂ PeriodOf groups (periodsOf groups) := by
  rcases List.eq_nil_or_concat' groups with rfl | ⟨past, group, rfl⟩
  · exact .nil
  · rw [List.forall_mem_append] at h
    obtain ⟨c, hc, hips⟩ := h.2 group (by simp)
    have hperiods : periodsOf (past ++ [group]) =
        past.filterMap overPeriod ++ [lastPeriod c.ip c.start (some c.last)] := by
      simp [periodsOf, currentIn, hc]
    rw [hperiods]
    exact List.rel_append (forall₂_overPeriod h.1) (.cons ⟨c, hc, rfl, rfl, rfl, hips⟩ .nil)

section

variable {rows : List (IpSample K)}

theorem forall₂_ipGroups (rows : List (IpSample K)) :
    List.Forall₂ PeriodOf (ipGroups rows) (periodsOf (ipGroups rows)) :=
  forall₂_periodsOf fun _ hg => currentOf_of_mem hg

theorem ongoing_periodsOf {groups : List (List (IpSample K))}
    (h : ∀ g ∈ groups, ∃ c, currentOf g = some c ∧ ∀ s ∈ g, s.ip = some c.ip) :
    (∀ p ∈ (periodsOf groups).reverse.head?, p.ongoing = true) ∧
      ∀ p ∈ (periodsOf groups).reverse.tail, p.ongoing = false := by
  have hover : ∀ p ∈ groups.dropLast.filterMap overPeriod, p.ongoing = false := by
    intro p hp
    obtain ⟨g, -, hg⟩ := List.mem_filterMap.mp hp
    obtain ⟨c, -, rfl⟩ := Option.map_eq_some_iff.mp hg
    rfl
  rcases List.eq_nil_or_concat' groups with rfl | ⟨past, group, rfl⟩
  · simp [periodsOf, currentIn]
  · obtain ⟨c, hc, -⟩ := h group (by simp)
    rw [List.dropLast_concat] at hover
    have hperiods : (periodsOf (past ++ [group])).reverse =
        lastPeriod c.ip c.start (some c.last) :: (past.filterMap overPeriod).reverse := by
      simp [periodsOf, currentIn, hc]
    rw [hperiods]
    refine ⟨?_, fun p hp => hover p (List.mem_reverse.mp hp)⟩
    rintro p ⟨⟩
    rfl

theorem ipPeriods_periodsOf (h : IpsOrdered rows) :
    IpPeriods rows (periodsOf (ipGroups rows)).reverse where
  held := by
    intro s hs ip hip
    have hmem : s ∈ (ipGroups rows).flatten := by
      rw [flatten_ipGroups]
      exact List.mem_filter.mpr ⟨hs, by simp [hip]⟩
    obtain ⟨g, hg, hsg⟩ := List.mem_flatten.mp hmem
    obtain ⟨p, hp, hperiod⟩ := (forall₂_ipGroups rows).exists_right hg
    exact ⟨p, List.mem_reverse.mpr hp,
      (contains_iff_mem h hg hperiod hs (by simp [hip])).mpr hsg⟩
  only := by
    intro s hs p hp hcontains
    obtain ⟨g, hg, hperiod⟩ := (forall₂_ipGroups rows).exists_left (List.mem_reverse.mp hp)
    cases hip : s.ip with
    | none => exact .inl rfl
    | some ip =>
      have hsg := (contains_iff_mem h hg hperiod hs (by simp [hip])).mp hcontains
      obtain ⟨-, -, -, -, -, -, hips⟩ := bounds_of_period hperiod
      exact .inr (hip ▸ hips s hsg)
  bounds := by
    intro p hp
    obtain ⟨g, hg, hperiod⟩ := (forall₂_ipGroups rows).exists_left (List.mem_reverse.mp hp)
    obtain ⟨first, last, hfirst, hlast, hstarted, hended, hips⟩ := bounds_of_period hperiod
    have hfirst := List.mem_of_head? hfirst
    have hlast := List.mem_of_getLast? hlast
    exact ⟨first, (mem_of_mem_ipGroups hg hfirst).1, last, (mem_of_mem_ipGroups hg hlast).1,
      hips first hfirst, hips last hlast, hstarted, hended⟩
  changes := by
    rw [List.isChain_reverse]
    refine (forall₂_ipGroups rows).isChain (List.isChain_getLast_head_splitBy _ _) ?_
    rintro g p g' p' ⟨hne, hne', hother⟩ hp hp'
    obtain ⟨-, -, -, -, -, -, hips⟩ := bounds_of_period hp
    obtain ⟨-, -, -, -, -, -, hips'⟩ := bounds_of_period hp'
    rw [hips _ (List.getLast_mem hne), hips' _ (List.head_mem hne')] at hother
    simpa [eq_comm] using hother
  disjoint := by
    rw [List.pairwise_reverse]
    refine (forall₂_ipGroups rows).pairwise (pairwise_ipGroups h).2 ?_
    intro g p g' p' hapart hp hp'
    obtain ⟨-, last, -, hlast, -, hended, -⟩ := bounds_of_period hp
    obtain ⟨first, -, hfirst, -, hstarted, -, -⟩ := bounds_of_period hp'
    refine ⟨last.ts, hended, ?_⟩
    rw [hstarted]
    exact hapart last (List.mem_of_getLast? hlast) first (List.mem_of_head? hfirst)
  ongoing := (ongoing_periodsOf fun _ hg => currentOf_of_mem hg).1
  ended := (ongoing_periodsOf fun _ hg => currentOf_of_mem hg).2

end

end

-- ---------------------------------------------------------------------------
-- The monitor and the periods
-- ---------------------------------------------------------------------------

def IpWatched.recorded (w : IpWatched K) : List (IpSample K) :=
  w.table ++ (w.pending.map Lookup.sample).toList

def neighbours (l : List String) : List (String × String) := l.zip l.tail

theorem neighbours_concat (l : List String) (b : String) :
    neighbours (l ++ [b]) = neighbours l ++ (l.getLast?.map (·, b)).toList := by
  induction l with
  | nil => rfl
  | cons a l ih =>
    cases l with
    | nil => rfl
    | cons c l =>
      rw [List.getLast?_cons_cons]
      exact congrArg ((a, c) :: ·) ih

/-- The monitor is as lookups leave it that found these addresses. -/
structure Follows (m : PublicIpMonitor K) (rows : List (IpSample K)) : Prop where
  currentIp : m.currentIp = (currentIn (ipGroups rows)).map Current.ip
  lastChangeTs : m.lastChangeTs = (currentIn (ipGroups rows)).map Current.start
  history : m.history = rows.rtake publicIpHistoryLen

theorem follows_sample {m : PublicIpMonitor K} {rows : List (IpSample K)} (h : Follows m rows)
    (s : IpSample K) : Follows (m.sample s) (rows ++ [s]) := by
  have hhistory : (m.sample s).history = (rows ++ [s]).rtake publicIpHistoryLen := by
    simp only [PublicIpMonitor.sample, h.history, rtake_rtake_concat]
  cases hip : s.ip with
  | none =>
    refine ⟨?_, ?_, hhistory⟩
    · simp [PublicIpMonitor.sample, hip, ipGroups_concat_none hip, h.currentIp]
    · simp [PublicIpMonitor.sample, hip, ipGroups_concat_none hip, h.lastChangeTs]
  | some ip =>
    have hnext := ipGroups_next rows s hip
    rw [← h.currentIp] at hnext
    by_cases hsame : m.currentIp = some ip
    · rw [if_pos hsame] at hnext
      refine ⟨?_, ?_, hhistory⟩
      · simp [PublicIpMonitor.sample, hip, hsame, hnext.1, ← h.currentIp, Function.comp_def]
      · simp [PublicIpMonitor.sample, hip, hsame, hnext.1, h.lastChangeTs, Function.comp_def]
    · rw [if_neg hsame] at hnext
      refine ⟨?_, ?_, hhistory⟩
      · simp [PublicIpMonitor.sample, hip, Ne.symm hsame, hnext.1]
      · simp [PublicIpMonitor.sample, hip, Ne.symm hsame, hnext.1]

theorem getLast?_ipsOf (rows : List (IpSample K)) :
    (ipsOf (ipGroups rows)).getLast? = (currentIn (ipGroups rows)).map Current.ip := by
  rcases List.eq_nil_or_concat' (ipGroups rows) with hnil | ⟨groups, group, hgroups⟩
  · rw [hnil]
    rfl
  · obtain ⟨c, hc, -⟩ := currentOf_of_mem (show group ∈ ipGroups rows by simp [hgroups])
    rw [hgroups, ipsOf_concat hc, currentIn_concat, hc]
    simp

/-- The change that is logged of a lookup that came after these. -/
theorem neighbours_change {rows : List (IpSample K)} {l : Lookup K}
    (h : l.previousIp = (currentIn (ipGroups rows)).map Current.ip) :
    neighbours (ipsOf (ipGroups (rows ++ [l.sample]))) =
      neighbours (ipsOf (ipGroups rows)) ++ l.change.toList := by
  cases hip : l.sample.ip with
  | none => simp [ipGroups_concat_none hip, Lookup.change, hip]
  | some ip =>
    have hnext := ipGroups_next rows l.sample hip
    rw [← h] at hnext
    by_cases hsame : l.previousIp = some ip
    · rw [if_pos hsame] at hnext
      simp [hnext.2, Lookup.change, hip, hsame]
    · rw [if_neg hsame] at hnext
      rw [hnext.2, neighbours_concat, getLast?_ipsOf, ← h]
      cases hprevious : l.previousIp with
      | none => simp [Lookup.change, hprevious]
      | some previous =>
        have hother : ip ≠ previous := by
          rintro rfl
          exact hsame hprevious
        simp [Lookup.change, hprevious, hip, hother]

section

variable [LinearOrder K]

/-- Where the monitor looks up, the clock is past its start and its lookups so far. -/
def IpTicks (started : K) (w : IpWatched K) : IpTurn K → Prop
  | .lookup now _ => started ≤ now ∧ ∀ s ∈ w.recorded, s.ts < now
  | .record => True

def ipsSince (started : K) (rows : List (IpSample K)) : List (IpSample K) :=
  rows.filter fun s => started ≤ s.ts

/-- The monitor follows its lookups, and the log the recorded ones. -/
structure IpTracks (started : K) (w : IpWatched K) : Prop where
  follows : Follows w.monitor (ipsSince started w.recorded)
  ordered : IpsOrdered (ipsSince started w.recorded)
  previous : ∀ l ∈ w.pending, started ≤ l.sample.ts ∧
    l.previousIp = (currentIn (ipGroups (ipsSince started w.table))).map Current.ip
  log : w.log = neighbours (ipsOf (ipGroups (ipsSince started w.table)))

theorem ipsSince_concat {started : K} {s : IpSample K} (h : started ≤ s.ts)
    (rows : List (IpSample K)) : ipsSince started (rows ++ [s]) = ipsSince started rows ++ [s] := by
  simp [ipsSince, h]

theorem ipTracks_turn {started : K} {w : IpWatched K} {t : IpTurn K} (h : IpTracks started w)
    (ht : IpTicks started w t) : IpTracks started (ipTurn w t) := by
  cases t with
  | record =>
    have hsame : (ipTurn w .record).recorded = w.recorded := by
      simp [ipTurn, IpWatched.recorded]
    refine ⟨hsame ▸ h.follows, hsame ▸ h.ordered, nofun, ?_⟩
    cases hpending : w.pending with
    | none => simp [ipTurn, hpending, h.log]
    | some l =>
      obtain ⟨hstarted, hprevious⟩ := h.previous l hpending
      have hlog := neighbours_change hprevious
      simp [ipTurn, hpending, h.log, ipsSince_concat hstarted, hlog]
  | lookup now ip =>
    cases hpending : w.pending with
    | some l => simpa [ipTurn, hpending] using h
    | none =>
      obtain ⟨hstarted, hlater⟩ := ht
      have hrecorded : ipsSince started (ipTurn w (.lookup now ip)).recorded =
          ipsSince started w.recorded ++ [⟨now, ip⟩] := by
        rw [← ipsSince_concat (by exact hstarted)]
        simp [ipTurn, hpending, IpWatched.recorded]
      have hmonitor : (ipTurn w (.lookup now ip)).monitor = w.monitor.sample ⟨now, ip⟩ := by
        simp [ipTurn, hpending]
      have htable : (ipTurn w (.lookup now ip)).table = w.recorded := by
        simp [ipTurn, hpending, IpWatched.recorded]
      have hold : w.table = w.recorded := by simp [IpWatched.recorded, hpending]
      refine ⟨?_, ?_, ?_, ?_⟩
      · rw [hrecorded, hmonitor]
        exact follows_sample h.follows _
      · rw [hrecorded, IpsOrdered, List.pairwise_append]
        refine ⟨h.ordered, List.pairwise_singleton _ _, fun s hs s' hs' => ?_⟩
        obtain rfl := List.mem_singleton.mp hs'
        exact hlater s (List.mem_filter.mp hs).1
      · intro l hl
        obtain rfl : (⟨⟨now, ip⟩, w.monitor.currentIp⟩ : Lookup K) = l := by
          simpa [ipTurn, hpending] using hl
        exact ⟨hstarted, by rw [htable]; exact h.follows.currentIp⟩
      · have hlog : (ipTurn w (.lookup now ip)).log = w.log := by simp [ipTurn, hpending]
        rw [hlog, htable, h.log, hold]

theorem ipTracks_start {started : K} {table : List (IpSample K)}
    (h : ∀ s ∈ table, s.ts < started) : IpTracks started ⟨.new, none, table, []⟩ := by
  have hnone : ipsSince started table = [] := by
    simpa [ipsSince] using h
  have hrecorded : ipsSince started (IpWatched.recorded ⟨.new, none, table, []⟩) = [] := by
    simpa [IpWatched.recorded] using hnone
  refine ⟨?_, ?_, nofun, ?_⟩
  · rw [hrecorded]
    exact ⟨rfl, rfl, by simp [PublicIpMonitor.new]⟩
  · rw [hrecorded]
    exact .nil
  · rw [hnone]
    rfl

theorem ipsInOrder_eq_since {started now : K} {table : List (IpSample K)}
    (h : ∀ s ∈ table, s.ts ≤ now) (hordered : IpsOrdered (ipsSince started table)) :
    ipsInOrder table started now = ipsSince started table := by
  have hselected : ipsSelected table started now = ipsSince started table :=
    List.filter_congr fun s hs => by simp [h s hs]
  rw [ipsInOrder, hselected]
  exact (hordered.imp fun hlt => le_of_lt hlt).insertionSort_eq

end

section

variable [Field K] [LinearOrder K] [FloorRing K] {started now : K} {w : IpWatched K}

omit [Field K] [LinearOrder K] [FloorRing K] in
theorem map_ip_of_forall₂ {groups : List (List (IpSample K))} {periods : List (IpPeriod K)}
    (h : List.Forall₂ PeriodOf groups periods) : periods.map IpPeriod.ip = ipsOf groups := by
  induction h with
  | nil => rfl
  | cons hp _ ih =>
    obtain ⟨c, hc, hip, -⟩ := hp
    rw [ipsOf, List.filterMap_cons_some (by rw [hc]; rfl), List.map_cons, ih, hip]
    rfl

theorem map_ip_periodsOf (rows : List (IpSample K)) :
    (periodsOf (ipGroups rows)).map IpPeriod.ip = ipsOf (ipGroups rows) :=
  map_ip_of_forall₂ (forall₂_ipGroups rows)

/-- The newest period is that of the current group. -/
theorem newest_periodsOf (rows : List (IpSample K)) :
    (periodsOf (ipGroups rows)).reverse.head?.map (·.ip) =
        (currentIn (ipGroups rows)).map Current.ip ∧
      (periodsOf (ipGroups rows)).reverse.head?.map (·.startedTs) =
        (currentIn (ipGroups rows)).map Current.start := by
  have hips : (periodsOf (ipGroups rows)).reverse.head?.map (·.ip) =
      (currentIn (ipGroups rows)).map Current.ip := by
    rw [List.head?_reverse, ← List.getLast?_map, map_ip_periodsOf, getLast?_ipsOf]
  refine ⟨hips, ?_⟩
  cases hcurrent : currentIn (ipGroups rows) with
  | none =>
    rw [hcurrent, Option.map_none, Option.map_eq_none_iff] at hips
    rw [hips]
    rfl
  | some c => simp [periodsOf, hcurrent, lastPeriod]

/-- However the thread's turns fall, the monitor shows the newest period and the
last lookups, and the log has the changes between the periods. -/
theorem follows_exec {table : List (IpSample K)} {turns : List (IpTurn K)}
    (htable : ∀ s ∈ table, s.ts < started)
    (hturns : Runs.Along ipTurn (IpTicks started) ⟨.new, none, table, []⟩ turns)
    (hw : Runs.exec ipTurn ⟨.new, none, table, []⟩ turns = w)
    (hnow : ∀ s ∈ w.recorded, s.ts ≤ now) :
    (∃ periods, queryIpPeriods w.recorded started now = some periods ∧
      IpPeriods (ipsSince started w.recorded) periods ∧
        w.monitor.currentIp = periods.head?.map (·.ip) ∧
          w.monitor.lastChangeTs = periods.head?.map (·.startedTs)) ∧
      (∃ periods, queryIpPeriods w.table started now = some periods ∧
        w.log = neighbours (periods.reverse.map (·.ip))) ∧
      w.monitor.history = (ipsSince started w.recorded).rtake publicIpHistoryLen := by
  have htracks : IpTracks started w := by
    rw [← hw]
    exact Runs.exec_of_along (fun w t _ h ht => ipTracks_turn h ht) hturns (ipTracks_start htable)
  have hquery := queryIpPeriods_eq w.recorded started now
  rw [ipsInOrder_eq_since hnow htracks.ordered] at hquery
  obtain ⟨hip, hstart⟩ := newest_periodsOf (ipsSince started w.recorded)
  refine ⟨⟨_, hquery, ipPeriods_periodsOf htracks.ordered, ?_, ?_⟩, ?_, htracks.follows.history⟩
  · rw [htracks.follows.currentIp, hip]
  · rw [htracks.follows.lastChangeTs, hstart]
  · have hsub : w.table.Sublist w.recorded := List.sublist_append_left _ _
    have hordered : IpsOrdered (ipsSince started w.table) :=
      htracks.ordered.sublist (hsub.filter _)
    have htableQuery := queryIpPeriods_eq w.table started now
    rw [ipsInOrder_eq_since (fun s hs => hnow s (hsub.subset hs)) hordered] at htableQuery
    exact ⟨_, htableQuery, by rw [List.reverse_reverse, map_ip_periodsOf, htracks.log]⟩

end

def roaming : List (IpTurn ℚ) :=
  [.lookup 10 (some "a"), .record, .lookup 70 none, .record, .lookup 130 (some "b"), .record,
    .lookup 190 (some "a"), .record, .lookup 250 (some "b")]

def roamed : IpWatched ℚ := Runs.exec ipTurn ⟨.new, none, [⟨4, some "c"⟩], []⟩ roaming

theorem follows_exec_roaming :
    (∃ periods, queryIpPeriods roamed.recorded 5 300 = some periods ∧
      IpPeriods (ipsSince 5 roamed.recorded) periods ∧
        some "b" = periods.head?.map (·.ip) ∧ some 250 = periods.head?.map (·.startedTs)) ∧
      (∃ periods, queryIpPeriods roamed.table 5 300 = some periods ∧
        [("a", "b"), ("b", "a")] = neighbours (periods.reverse.map (·.ip))) ∧
      roamed.monitor.history = (ipsSince 5 roamed.recorded).rtake publicIpHistoryLen := by
  have hturns : Runs.Along ipTurn (IpTicks 5) ⟨.new, none, [⟨4, some "c"⟩], []⟩ roaming := by
    simp [roaming, ipTurn, IpTicks, IpWatched.recorded]
    norm_num
  exact follows_exec (by norm_num) hturns rfl (by decide +kernel)

end Wifucked.Netmon
