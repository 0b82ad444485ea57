import Mathlib.Algebra.Order.Floor.Ring
import Wifucked.Netmon.Storage

/-!
# When a host was down

The drop events of a window are the stretches of samples that were not
answered: apart from each other, and over but for the newest.
-/

namespace Wifucked.Netmon

variable {K : Type}

-- ---------------------------------------------------------------------------
-- Stretches
-- ---------------------------------------------------------------------------

section

variable {rows run before after : List (PingSample K)} {ongoing : Bool}

/-- The stretches of the rows, and whether each is the one the rows end with. -/
def stretchesOf (rows : List (PingSample K)) : List (List (PingSample K) × Bool) :=
  let c := Stretch.collected PingSample.down rows
  c.closed.map (·, false) ++ [(c.current, true)]

theorem stretch_of_mem (h : (run, ongoing) ∈ stretchesOf rows) (hne : run ≠ []) :
    ∃ before after, Stretch PingSample.down rows before run after ∧
      (ongoing = true ↔ after = []) := by
  rcases List.mem_append.mp h with h | h
  · obtain ⟨r, hr, he⟩ := List.mem_map.mp h
    obtain ⟨rfl, rfl⟩ := Prod.mk.inj he
    obtain ⟨before, after, hstretch, hafter⟩ := Stretch.mem_closed_iff.mp hr
    exact ⟨before, after, hstretch, by simp [hafter]⟩
  · obtain ⟨hrun, rfl⟩ := Prod.mk.inj (List.mem_singleton.mp h)
    obtain ⟨before, hstretch⟩ := Stretch.current_iff.mp ⟨hrun.symm, hne⟩
    exact ⟨before, [], hstretch, by simp⟩

theorem mem_stretchesOf (h : Stretch PingSample.down rows before run after) :
    ∃ ongoing, (run, ongoing) ∈ stretchesOf rows ∧ (ongoing = true ↔ after = []) := by
  by_cases hafter : after = []
  · subst hafter
    obtain ⟨hrun, -⟩ := Stretch.current_iff.mpr ⟨before, h⟩
    exact ⟨true, by simp [stretchesOf, hrun], by simp⟩
  · have hrun := Stretch.mem_closed_iff.mpr ⟨before, after, h, hafter⟩
    exact ⟨false, by simp [stretchesOf, hrun], by simp [hafter]⟩

theorem flatten_stretchesOf (rows : List (PingSample K)) :
    ((stretchesOf rows).map Prod.fst).flatten = rows.filter PingSample.down := by
  rw [← Stretch.flatten_collected]
  simp [stretchesOf, Function.comp_def]

end

section

variable [LinearOrder K] {table rows run : List (PingSample K)} {hostId : String}
  {tsFrom tsTo : K}

/-- No two samples of the host are of the same time. -/
def Distinct (table : List (PingSample K)) (hostId : String) : Prop :=
  ((table.filter (·.hostId = hostId)).map (·.ts)).Nodup

def Ordered (rows : List (PingSample K)) : Prop := rows.Pairwise fun s t => s.ts < t.ts

instance : Std.Total (NotAfter (K := K)) := ⟨fun s t => le_total s.ts t.ts⟩

instance : IsTrans (PingSample K) NotAfter := ⟨fun _ _ _ => le_trans⟩

theorem ordered_selectedInOrder (h : Distinct table hostId) :
    Ordered (selectedInOrder table hostId tsFrom tsTo) := by
  have hsub : (selected table hostId tsFrom tsTo).Sublist (table.filter (·.hostId = hostId)) := by
    have hsplit : selected table hostId tsFrom tsTo =
        (table.filter (·.hostId = hostId)).filter fun s => tsFrom ≤ s.ts && s.ts ≤ tsTo := by
      rw [List.filter_filter]
      exact List.filter_congr fun s _ => by cases decide (s.hostId = hostId) <;> simp
    rw [hsplit]
    exact List.filter_sublist
  have hnodup : ((selectedInOrder table hostId tsFrom tsTo).map (·.ts)).Nodup :=
    ((perm_selectedInOrder ..).map _).nodup_iff.mpr (h.sublist (hsub.map _))
  have hsorted : (selectedInOrder table hostId tsFrom tsTo).Pairwise NotAfter :=
    List.pairwise_insertionSort _ _
  exact hsorted.imp₂ (fun _ _ hle hne => lt_of_le_of_ne hle hne) (List.pairwise_map.mp hnodup)

theorem Ordered.head_le (h : Ordered run) {first s : PingSample K} (hfirst : run.head? = some first)
    (hs : s ∈ run) : first.ts ≤ s.ts := by
  cases run with
  | nil => cases hs
  | cons a rest =>
    obtain rfl : a = first := Option.some.inj hfirst
    rcases List.mem_cons.mp hs with rfl | hs
    · exact le_rfl
    · exact ((List.pairwise_cons.mp h).1 s hs).le

theorem Ordered.le_last (h : Ordered run) {last s : PingSample K} (hlast : run.getLast? = some last)
    (hs : s ∈ run) : s.ts ≤ last.ts := by
  obtain ⟨init, rfl⟩ := List.getLast?_eq_some_iff.mp hlast
  rcases List.mem_append.mp hs with hs | hs
  · exact ((List.pairwise_append.mp h).2.2 s hs last (by simp)).le
  · rw [List.mem_singleton.mp hs]

theorem pairwise_stretchesOf (h : Ordered rows) :
    (∀ r ∈ stretchesOf rows, Ordered r.1) ∧
      (stretchesOf rows).Pairwise fun r q => ∀ s ∈ r.1, ∀ t ∈ q.1, s.ts < t.ts := by
  have hfilter : ((stretchesOf rows).map Prod.fst).flatten.Pairwise fun s t => s.ts < t.ts := by
    rw [flatten_stretchesOf]
    exact h.filter _
  rw [List.pairwise_flatten, List.pairwise_map] at hfilter
  exact ⟨fun r hr => hfilter.1 r.1 (List.mem_map_of_mem hr), hfilter.2⟩

end

-- ---------------------------------------------------------------------------
-- Events
-- ---------------------------------------------------------------------------

section

variable [LinearOrder K] {rows run before after : List (PingSample K)} {e : DropEvent K}

/-- The event is of this stretch, and ongoing where nothing follows it. -/
structure Reports (e : DropEvent K) (run after : List (PingSample K)) : Prop where
  started : run.head?.map (·.ts) = some e.startedTs
  ended : run.getLast?.map (·.ts) = e.endedTs
  ongoing : e.ongoing = true ↔ after = []

def DropEvent.Contains (e : DropEvent K) (ts : K) : Prop :=
  ∃ ended, e.endedTs = some ended ∧ e.startedTs ≤ ts ∧ ts ≤ ended

/-- What the events of some rows are, the newest first. -/
structure Outages (rows : List (PingSample K)) (events : List (DropEvent K)) : Prop where
  stretch : ∀ e ∈ events, ∃ before run after,
    Stretch PingSample.down rows before run after ∧ Reports e run after
  reported : ∀ before run after, Stretch PingSample.down rows before run after →
    ∃ e ∈ events, Reports e run after
  disjoint : events.Pairwise fun newer older =>
    ∃ ended, older.endedTs = some ended ∧ ended < newer.startedTs
  down : ∀ s ∈ rows, s.down = true ↔ ∃ e ∈ events, e.Contains s.ts
  ended : ∀ e ∈ events.tail, e.ongoing = false
  ongoing : (∃ e, events.head? = some e ∧ e.ongoing = true) ↔
    ∃ s, rows.getLast? = some s ∧ s.down = true

theorem contains_iff (h : Ordered rows) (hstretch : Stretch PingSample.down rows before run after)
    (he : Reports e run after) {s : PingSample K} (hs : s ∈ rows) :
    e.Contains s.ts ↔ s ∈ run := by
  obtain ⟨first, hfirst, hstarted⟩ := Option.map_eq_some_iff.mp he.started
  obtain ⟨last, hlast⟩ : ∃ last, run.getLast? = some last :=
    ⟨_, List.getLast?_eq_some_getLast hstretch.ne_nil⟩
  have hended : e.endedTs = some last.ts := by rw [← he.ended, hlast, Option.map_some]
  rw [hstretch.split, Ordered, List.pairwise_append, List.pairwise_append] at h
  obtain ⟨⟨-, hrun, hbefore⟩, -, hafter⟩ := h
  have hcontains : e.Contains s.ts ↔ first.ts ≤ s.ts ∧ s.ts ≤ last.ts := by
    simp [DropEvent.Contains, hended, hstarted]
  rw [hcontains]
  constructor
  · rintro ⟨hlo, hhi⟩
    rw [hstretch.split, List.mem_append, List.mem_append] at hs
    rcases hs with (hs | hs) | hs
    · exact absurd (hbefore s hs first (List.mem_of_head? hfirst)) hlo.not_gt
    · exact hs
    · exact absurd (hafter last (by simp [List.mem_of_getLast? hlast]) s hs) hhi.not_gt
  · exact fun hs => ⟨Ordered.head_le hrun hfirst hs, Ordered.le_last hrun hlast hs⟩

end

section

variable [Field K] [LinearOrder K] [FloorRing K] {rows : List (PingSample K)}

def eventOf (run : List (PingSample K)) (ongoing : Bool) : Option (DropEvent K) :=
  match run.head?, run.getLast? with
  | some first, some last =>
    some (if ongoing then lastEvent first.ts (some last.ts)
      else ⟨first.ts, some last.ts, rounded 1 (last.ts - first.ts), false⟩)
  | _, _ => none

/-- The loop keeps the events of the stretches that are over, and where the
current one started. -/
theorem foldlM_dropRow (rows : List (PingSample K)) :
    rows.foldlM dropRow ⟨[], none, none⟩ =
      some ⟨(Stretch.collected PingSample.down rows).closed.filterMap (eventOf · false),
        (Stretch.collected PingSample.down rows).current.head?.map (·.ts),
        rows.getLast?.map (·.ts)⟩ := by
  induction rows using List.reverseRecOn with
  | nil => rfl
  | append_singleton rows s ih =>
    rw [List.foldlM_append, ih, Stretch.collected_concat, List.getLast?_concat]
    have hlast := Stretch.getLast?_current (p := PingSample.down) (l := rows)
    generalize Stretch.collected PingSample.down rows = c at hlast ⊢
    rcases c with ⟨closed, current⟩
    cases hs : s.down with
    | true =>
      rw [Stretch.collect_of_pos _ hs]
      cases current <;> simp [dropRow, hs]
    | false =>
      rw [Stretch.collect_of_neg _ hs]
      cases current with
      | nil => simp [dropRow, hs]
      | cons first rest =>
        rw [hlast (by simp)]
        simp [dropRow, hs, eventOf, List.getLast?_cons]

theorem queryDropEvents_eq (table : List (PingSample K)) (hostId : String) (tsFrom tsTo : K) :
    queryDropEvents table hostId tsFrom tsTo =
      some ((stretchesOf (selectedInOrder table hostId tsFrom tsTo)).filterMap
        fun r => eventOf r.1 r.2).reverse := by
  have hlast := Stretch.getLast?_current (p := PingSample.down)
    (l := selectedInOrder table hostId tsFrom tsTo)
  rw [queryDropEvents, foldlM_dropRow, Option.map_some, stretchesOf, List.filterMap_append,
    List.filterMap_map]
  cases hcurrent : (Stretch.collected PingSample.down
      (selectedInOrder table hostId tsFrom tsTo)).current with
  | nil => simp [eventOf, Function.comp_def]
  | cons first rest =>
    rw [hcurrent] at hlast
    rw [hlast (by simp)]
    simp [eventOf, List.getLast?_cons, Function.comp_def]

variable {run before after : List (PingSample K)} {ongoing : Bool} {e : DropEvent K}

theorem eventOf_eq_some (h : eventOf run ongoing = some e) : ∃ first last,
    run.head? = some first ∧ run.getLast? = some last ∧ e.startedTs = first.ts ∧
      e.endedTs = some last.ts ∧ e.ongoing = ongoing := by
  unfold eventOf at h
  split at h
  · rename_i first last hfirst hlast
    obtain rfl := Option.some.inj h
    refine ⟨first, last, hfirst, hlast, ?_⟩
    cases ongoing <;> simp [lastEvent]
  · cases h

theorem exists_eventOf (h : run ≠ []) (ongoing : Bool) : ∃ e, eventOf run ongoing = some e := by
  cases run with
  | nil => exact absurd rfl h
  | cons first rest => simp [eventOf, List.getLast?_cons]

def eventsOf (rows : List (PingSample K)) : List (DropEvent K) :=
  (stretchesOf rows).filterMap fun r => eventOf r.1 r.2

theorem mem_eventsOf : e ∈ eventsOf rows ↔
    ∃ run ongoing, (run, ongoing) ∈ stretchesOf rows ∧ eventOf run ongoing = some e := by
  rw [eventsOf, List.mem_filterMap, Prod.exists]

theorem ne_nil_of_eventOf (h : eventOf run ongoing = some e) : run ≠ [] := by
  rintro rfl
  cases h

theorem reports_of_eventOf (h : eventOf run ongoing = some e)
    (hafter : ongoing = true ↔ after = []) : Reports e run after := by
  obtain ⟨first, last, hfirst, hlast, hstarted, hended, hongoing⟩ := eventOf_eq_some h
  exact ⟨by rw [hfirst, hstarted, Option.map_some], by rw [hlast, hended, Option.map_some],
    by rw [hongoing, hafter]⟩

theorem stretch_eventsOf (h : e ∈ eventsOf rows) : ∃ before run after,
    Stretch PingSample.down rows before run after ∧ Reports e run after := by
  obtain ⟨run, ongoing, hmem, he⟩ := mem_eventsOf.mp h
  obtain ⟨before, after, hstretch, hafter⟩ := stretch_of_mem hmem (ne_nil_of_eventOf he)
  exact ⟨before, run, after, hstretch, reports_of_eventOf he hafter⟩

theorem reported_eventsOf (h : Stretch PingSample.down rows before run after) :
    ∃ e ∈ eventsOf rows, Reports e run after := by
  obtain ⟨ongoing, hmem, hafter⟩ := mem_stretchesOf h
  obtain ⟨e, he⟩ := exists_eventOf h.ne_nil ongoing
  exact ⟨e, mem_eventsOf.mpr ⟨run, ongoing, hmem, he⟩, reports_of_eventOf he hafter⟩

theorem pairwise_eventsOf (h : Ordered rows) : (eventsOf rows).Pairwise fun older newer =>
    ∃ ended, older.endedTs = some ended ∧ ended < newer.startedTs := by
  refine (pairwise_stretchesOf h).2.filterMap _ fun r q hrq e he e' he' => ?_
  obtain ⟨-, last, -, hlast, -, hended, -⟩ := eventOf_eq_some he
  obtain ⟨first, -, hfirst, -, hstarted, -, -⟩ := eventOf_eq_some he'
  refine ⟨last.ts, hended, ?_⟩
  rw [hstarted]
  exact hrq last (List.mem_of_getLast? hlast) first (List.mem_of_head? hfirst)

theorem down_iff_eventsOf (h : Ordered rows) {s : PingSample K} (hs : s ∈ rows) :
    s.down = true ↔ ∃ e ∈ eventsOf rows, e.Contains s.ts := by
  constructor
  · intro hdown
    have hflat : s ∈ ((stretchesOf rows).map Prod.fst).flatten := by
      rw [flatten_stretchesOf]
      exact List.mem_filter.mpr ⟨hs, hdown⟩
    obtain ⟨run, hfst, hrun⟩ := List.mem_flatten.mp hflat
    obtain ⟨⟨run, ongoing⟩, hmem, rfl⟩ := List.mem_map.mp hfst
    obtain ⟨before, after, hstretch, -⟩ := stretch_of_mem hmem (List.ne_nil_of_mem hrun)
    obtain ⟨e, he, hreports⟩ := reported_eventsOf hstretch
    exact ⟨e, he, (contains_iff h hstretch hreports hs).mpr hrun⟩
  · rintro ⟨e, he, hcontains⟩
    obtain ⟨before, run, after, hstretch, hreports⟩ := stretch_eventsOf he
    exact hstretch.all s ((contains_iff h hstretch hreports hs).mp hcontains)

/-- The events of the stretches that are over, and that of the current one. -/
theorem eventsOf_eq (rows : List (PingSample K)) :
    ∃ closed, (∀ e ∈ closed, e.ongoing = false) ∧
      eventsOf rows = closed ++ (eventOf (rows.rtakeWhile PingSample.down) true).toList := by
  refine ⟨(Stretch.collected PingSample.down rows).closed.filterMap (eventOf · false), ?_, ?_⟩
  · intro e he
    obtain ⟨run, -, hrun⟩ := List.mem_filterMap.mp he
    obtain ⟨-, -, -, -, -, -, hongoing⟩ := eventOf_eq_some hrun
    exact hongoing
  · rw [eventsOf, stretchesOf, List.filterMap_append, List.filterMap_map,
      Stretch.current_collected]
    cases h : eventOf (rows.rtakeWhile PingSample.down) true <;> simp [h]

theorem ended_eventsOf (h : e ∈ (eventsOf rows).reverse.tail) : e.ongoing = false := by
  obtain ⟨closed, hclosed, heq⟩ := eventsOf_eq rows
  rw [heq, List.reverse_append] at h
  refine hclosed e (List.mem_reverse.mp ?_)
  cases hlast : eventOf (rows.rtakeWhile PingSample.down) true with
  | none =>
    rw [hlast] at h
    exact List.mem_of_mem_tail h
  | some e' =>
    rw [hlast] at h
    exact h

theorem ongoing_eventsOf (rows : List (PingSample K)) :
    (∃ e, (eventsOf rows).reverse.head? = some e ∧ e.ongoing = true) ↔
      ∃ s, rows.getLast? = some s ∧ s.down = true := by
  obtain ⟨closed, hclosed, heq⟩ := eventsOf_eq rows
  rw [heq, List.reverse_append]
  by_cases hcurrent : rows.rtakeWhile PingSample.down = []
  · rw [hcurrent]
    refine iff_of_false ?_ ?_
    · rintro ⟨e, hhead, hongoing⟩
      have he : e ∈ closed := List.mem_reverse.mp (List.mem_of_head? hhead)
      simp [hclosed e he] at hongoing
    · rintro ⟨s, hlast, hdown⟩
      obtain ⟨hne, rfl⟩ := List.mem_getLast?_eq_getLast hlast
      exact List.rtakeWhile_eq_nil_iff.mp hcurrent hne hdown
  · obtain ⟨e, he⟩ := exists_eventOf hcurrent true
    obtain ⟨-, last, -, hlast, -, -, hongoing⟩ := eventOf_eq_some he
    have hrow := Stretch.getLast?_current (Stretch.current_collected rows ▸ hcurrent)
    rw [Stretch.current_collected, hlast] at hrow
    rw [he]
    exact iff_of_true ⟨e, rfl, hongoing⟩
      ⟨last, hrow, List.mem_rtakeWhile_imp (List.mem_of_getLast? hlast)⟩

theorem outages_eventsOf (h : Ordered rows) : Outages rows (eventsOf rows).reverse where
  stretch := fun e he => stretch_eventsOf (List.mem_reverse.mp he)
  reported := by
    intro before run after hstretch
    obtain ⟨e, he, hreports⟩ := reported_eventsOf hstretch
    exact ⟨e, List.mem_reverse.mpr he, hreports⟩
  disjoint := List.pairwise_reverse.mpr (pairwise_eventsOf h)
  down := by
    intro s hs
    rw [down_iff_eventsOf h hs]
    simp
  ended := fun _ he => ended_eventsOf he
  ongoing := ongoing_eventsOf rows

end

end Wifucked.Netmon
