import Wifucked.Lib.Runs
import Wifucked.Discovery

/-!
# How often the radio scans

A scan that found something is reused until the interval is over. One that found
nothing leaves nothing to reuse, and one that raised leaves the time of the next
scan where it was, so that the next sweep may scan again.
-/

namespace Wifucked

variable {K : Type} [Zero K] [Add K] [LinearOrder K]

/-- What a sweep meets. `none` is a source that raises. -/
structure Search (K : Type) where
  now : K
  stationLink : Option (Option StationLink)
  scan : Option (List ScannedNetwork)
  devices : Option (List UsbDevice)
  carrier : String → Bool

def Search.usb (c : Search K) : Option (List (Atomic K)) :=
  c.devices.map fun devices => discoverUsb devices c.carrier

/-- Whether the radio is made to scan, and what comes of it. -/
def Search.discoverWifi (c : Search K) : Bool × Option (List (Atomic K)) :=
  match c.stationLink with
  | none => (false, none)
  | some link => (true, c.scan.map (Wifucked.discoverWifi link))

structure Discoverer (K : Type) where
  wifiScanMinIntervalS : K
  includeWifiWan : Bool
  nextWifiScan : K
  lastWifiAtomics : List (Atomic K)

namespace Discoverer

def init (wifiScanMinIntervalS : K) (includeWifiWan : Bool) : Discoverer K where
  wifiScanMinIntervalS := wifiScanMinIntervalS
  includeWifiWan := includeWifiWan
  nextWifiScan := 0
  lastWifiAtomics := []

def discoverWifiThrottled (d : Discoverer K) (c : Search K) :
    Bool × Option (List (Atomic K)) × Discoverer K :=
  if c.now < d.nextWifiScan ∧ d.lastWifiAtomics ≠ [] then (false, some d.lastWifiAtomics, d)
  else
    match c.discoverWifi with
    | (scanned, none) => (scanned, none, d)
    | (scanned, some atomics) =>
      (scanned, some atomics,
        { d with lastWifiAtomics := atomics, nextWifiScan := c.now + d.wifiScanMinIntervalS })

def discover (d : Discoverer K) (c : Search K) : Bool × List (Atomic K) × Discoverer K :=
  if d.includeWifiWan then
    let (scanned, wifi, next) := d.discoverWifiThrottled c
    (scanned, sweep wifi c.usb, next)
  else (false, sweep none c.usb, d)

end Discoverer

/-- The discoverer, and the sweeps at which the radio has scanned, the latest first. -/
structure Radioed (K : Type) where
  discoverer : Discoverer K
  scanned : List (Search K)

namespace Radioed

def start (wifiScanMinIntervalS : K) (includeWifiWan : Bool) : Radioed K where
  discoverer := .init wifiScanMinIntervalS includeWifiWan
  scanned := []

def step (s : Radioed K) (c : Search K) : Radioed K where
  discoverer := (s.discoverer.discover c).2.2
  scanned := if (s.discoverer.discover c).1 then c :: s.scanned else s.scanned

end Radioed

def Search.Barren (c : Search K) : Prop := c.scan.getD [] = []

instance (c : Search K) : Decidable c.Barren :=
  match h : c.scan.getD [] with
  | [] => .isTrue h
  | _ :: _ => .isFalse fun hb => by rw [Search.Barren, h] at hb; cases hb

/-- Two scans with the interval between them, or more. -/
def Search.Rested (interval : K) (later earlier : Search K) : Prop :=
  earlier.now + interval ≤ later.now

instance (interval : K) (later earlier : Search K) : Decidable (later.Rested interval earlier) :=
  inferInstanceAs (Decidable (_ ≤ _))

namespace Radioed

/-- Where the link answers and the last scan was barren, the interval is over. -/
def Spaced (s : Radioed K) (c : Search K) : Prop :=
  c.stationLink.isSome → ∀ b ∈ s.scanned.head?, b.Barren →
    c.Rested s.discoverer.wifiScanMinIntervalS b

instance (s : Radioed K) (c : Search K) : Decidable (s.Spaced c) :=
  inferInstanceAs (Decidable (c.stationLink.isSome → ∀ b ∈ s.scanned.head?, b.Barren → _ ≤ _))

/-- A scan that found something is what is reused, and until when. -/
structure Inv (s : Radioed K) : Prop where
  fruitful : ∀ b ∈ s.scanned.head?, ¬b.Barren →
    s.discoverer.lastWifiAtomics ≠ [] ∧
      s.discoverer.nextWifiScan = b.now + s.discoverer.wifiScanMinIntervalS
  barren : ∀ b ∈ s.scanned.head?, b.Barren →
    s.discoverer.lastWifiAtomics ≠ [] → s.discoverer.nextWifiScan ≤ b.now
  off : s.discoverer.includeWifiWan = false → s.scanned = []

variable {s : Radioed K} {c : Search K} {interval : K} {wifi : Bool}

theorem inv_start : (start interval wifi).Inv where
  fruitful := by simp [start]
  barren := by simp [start]
  off := fun _ => rfl

end Radioed

/-- The ends of a sweep, for the radio. -/
theorem Discoverer.discover_cases (d : Discoverer K) (c : Search K) :
    ((d.discover c).1 = false ∧ (d.discover c).2.2 = d ∧
        (d.includeWifiWan = false ∨ (c.now < d.nextWifiScan ∧ d.lastWifiAtomics ≠ []) ∨
          c.stationLink = none)) ∨
      ((d.discover c).1 = true ∧ d.includeWifiWan = true ∧ c.stationLink.isSome ∧
        (d.lastWifiAtomics ≠ [] → d.nextWifiScan ≤ c.now) ∧
        (c.scan = none ∧ (d.discover c).2.2 = d ∨
          ∃ link scan, c.stationLink = some link ∧ c.scan = some scan ∧ (d.discover c).2.2 =
            { d with
              lastWifiAtomics := discoverWifi link scan
              nextWifiScan := c.now + d.wifiScanMinIntervalS })) := by
  cases hwifi : d.includeWifiWan with
  | false => exact .inl (by simp [discover, hwifi])
  | true =>
    by_cases hthrottled : c.now < d.nextWifiScan ∧ d.lastWifiAtomics ≠ []
    · exact .inl (by simp [discover, hwifi, discoverWifiThrottled, hthrottled])
    · have hdue : d.lastWifiAtomics ≠ [] → d.nextWifiScan ≤ c.now :=
        fun hlast => not_lt.mp fun hnow => hthrottled ⟨hnow, hlast⟩
      cases hlink : c.stationLink with
      | none =>
        exact .inl (by simp [discover, hwifi, discoverWifiThrottled, hthrottled,
          Search.discoverWifi, hlink])
      | some link =>
        refine .inr ?_
        cases hscan : c.scan with
        | none =>
          simpa [discover, hwifi, discoverWifiThrottled, hthrottled, Search.discoverWifi, hlink,
            hscan] using hdue
        | some scan =>
          simpa [discover, hwifi, discoverWifiThrottled, hthrottled, Search.discoverWifi, hlink,
            hscan] using hdue

namespace Radioed

variable {s : Radioed K} {c : Search K} {interval : K} {wifi : Bool}

theorem step_quiet (h : (s.discoverer.discover c).1 = false)
    (hd : (s.discoverer.discover c).2.2 = s.discoverer) : s.step c = s := by
  simp [step, h, hd]

theorem wifiScanMinIntervalS_step (s : Radioed K) (c : Search K) :
    (s.step c).discoverer.wifiScanMinIntervalS = s.discoverer.wifiScanMinIntervalS := by
  rcases s.discoverer.discover_cases c with
    ⟨hquiet, hsame, -⟩ | ⟨-, -, -, -, ⟨-, hsame⟩ | ⟨link, scan, -, -, hnext⟩⟩
  · rw [step_quiet hquiet hsame]
  · rw [step, hsame]
  · rw [step, hnext]

theorem inv_step (h : s.Inv) : (s.step c).Inv := by
  rcases s.discoverer.discover_cases c with
    ⟨hquiet, hsame, -⟩ | ⟨hscans, hwifi, -, hdue, hend⟩
  · rwa [step_quiet hquiet hsame]
  · have hscanned : (s.step c).scanned = c :: s.scanned := by simp [step, hscans]
    have hincluded : (s.step c).discoverer.includeWifiWan = true := by
      rcases hend with ⟨-, hsame⟩ | ⟨link, scan, -, -, hnext⟩
      · rw [step, hsame, hwifi]
      · rw [step, hnext, hwifi]
    constructor
    · intro b hb hfruitful
      obtain rfl : c = b := by simpa [hscanned] using hb
      rcases hend with ⟨hraises, -⟩ | ⟨link, scan, -, hscan, hnext⟩
      · exact absurd (by simp [Search.Barren, hraises]) hfruitful
      · rw [Search.Barren, hscan, Option.getD_some] at hfruitful
        rw [step, hnext]
        exact ⟨by simpa [discoverWifi] using hfruitful, rfl⟩
    · intro b hb hbarren hlast
      obtain rfl : c = b := by simpa [hscanned] using hb
      rcases hend with ⟨-, hsame⟩ | ⟨link, scan, -, hscan, hnext⟩
      · rw [step, hsame] at hlast ⊢
        exact hdue hlast
      · rw [Search.Barren, hscan, Option.getD_some] at hbarren
        rw [step, hnext] at hlast
        exact absurd (by simp [hbarren, discoverWifi]) hlast
    · intro hoff
      rw [hincluded] at hoff
      cases hoff

/-- A scan is rested from all before it exactly where it is from a barren last one. -/
theorem pairwise_step_iff (h : s.Inv) (hnow : ∀ b ∈ s.scanned, b.now ≤ c.now)
    (hpair : s.scanned.Pairwise (Search.Rested s.discoverer.wifiScanMinIntervalS)) :
    (s.step c).scanned.Pairwise (Search.Rested s.discoverer.wifiScanMinIntervalS) ↔ s.Spaced c := by
  rcases s.discoverer.discover_cases c with
    ⟨hquiet, hsame, hwhy⟩ | ⟨hscans, -, hlink, hdue, -⟩
  · rw [step_quiet hquiet hsame]
    refine iff_of_true hpair fun hlink b hb hbarren => ?_
    rcases hwhy with hoff | ⟨hearly, hlast⟩ | hnone
    · rw [h.off hoff] at hb
      cases hb
    · -- What a barren scan leaves is never reused.
      have hover := h.barren b hb hbarren hlast
      exact absurd (hearly.trans_le (hover.trans (hnow b (List.mem_of_mem_head? hb)))) (lt_irrefl _)
    · rw [hnone] at hlink
      cases hlink
  · have hscanned : (s.step c).scanned = c :: s.scanned := by simp [step, hscans]
    rw [hscanned, List.pairwise_cons, and_iff_left hpair]
    constructor
    · intro hall _ b hb _
      exact hall b (List.mem_of_mem_head? hb)
    · intro hspaced
      cases hs : s.scanned with
      | nil => simp
      | cons b rest =>
        have hhead : b ∈ s.scanned.head? := by simp [hs]
        have hlast : c.Rested s.discoverer.wifiScanMinIntervalS b := by
          by_cases hbarren : b.Barren
          · exact hspaced hlink b hhead hbarren
          · obtain ⟨hkept, hnext⟩ := h.fruitful b hhead hbarren
            exact hnext.symm.trans_le (hdue hkept)
        intro d hd
        rcases List.mem_cons.mp hd with rfl | hd
        · exact hlast
        · -- An earlier one is rested from the last one, which is no later.
          have hearlier := (List.pairwise_cons.mp (hs ▸ hpair)).1 d hd
          exact le_trans hearlier (hnow b (List.mem_of_mem_head? hhead))

theorem scanned_suffix_step (s : Radioed K) (c : Search K) : s.scanned <:+ (s.step c).scanned := by
  rw [step]
  split
  · exact List.suffix_cons _ _
  · exact List.suffix_rfl

theorem scanned_suffix_exec (s : Radioed K) (cs : List (Search K)) :
    s.scanned <:+ (Runs.exec step s cs).scanned :=
  Runs.exec_keeps (P := fun t => s.scanned <:+ t.scanned)
    (fun t c _ ht => ht.trans (scanned_suffix_step t c)) List.suffix_rfl

theorem now_step {cs : List (Search K)} (hnow : ∀ b ∈ s.scanned, ∀ d ∈ c :: cs, b.now ≤ d.now)
    (hc : ∀ d ∈ cs, c.now ≤ d.now) : ∀ b ∈ (s.step c).scanned, ∀ d ∈ cs, b.now ≤ d.now := by
  intro b hb d hd
  rw [step] at hb
  split at hb
  · rcases List.mem_cons.mp hb with rfl | hb
    · exact hc d hd
    · exact hnow b hb d (List.mem_cons_of_mem _ hd)
  · exact hnow b hb d (List.mem_cons_of_mem _ hd)

theorem pairwise_exec_iff {cs : List (Search K)} (h : s.Inv)
    (hpair : s.scanned.Pairwise (Search.Rested s.discoverer.wifiScanMinIntervalS))
    (hnow : ∀ b ∈ s.scanned, ∀ c ∈ cs, b.now ≤ c.now)
    (hsorted : cs.Pairwise fun a b => a.now ≤ b.now) :
    (Runs.exec step s cs).scanned.Pairwise (Search.Rested s.discoverer.wifiScanMinIntervalS) ↔
      Runs.Along step Spaced s cs := by
  induction cs generalizing s with
  | nil => simpa using hpair
  | cons c cs ih =>
    obtain ⟨hc, hsorted⟩ := List.pairwise_cons.mp hsorted
    have hbefore : ∀ b ∈ s.scanned, b.now ≤ c.now := fun b hb => hnow b hb c List.mem_cons_self
    have hone := pairwise_step_iff h hbefore hpair
    rw [Runs.exec_cons, Runs.along_cons, ← hone]
    constructor
    · intro hall
      have hstep := hall.sublist (scanned_suffix_exec (s.step c) cs).sublist
      refine ⟨hstep, ?_⟩
      rw [← wifiScanMinIntervalS_step s c] at hstep hall
      exact (ih (inv_step h) hstep (now_step hnow hc) hsorted).mp hall
    · rintro ⟨hstep, halong⟩
      rw [← wifiScanMinIntervalS_step s c] at hstep ⊢
      exact (ih (inv_step h) hstep (now_step hnow hc) hsorted).mpr halong

/-- Any two scans of a run are an interval apart exactly where no sweep whose link
answers comes sooner than that after a scan that was barren. -/
theorem scans_rested_iff (interval : K) (wifi : Bool) (cs : List (Search K))
    (hsorted : cs.Pairwise fun a b => a.now ≤ b.now) :
    (Runs.exec step (start interval wifi) cs).scanned.Pairwise (Search.Rested interval) ↔
      Runs.Along step Spaced (start interval wifi) cs :=
  pairwise_exec_iff inv_start .nil (fun _ hb => by cases hb) hsorted

def silence (now : ℤ) : Search ℤ where
  now := now
  stationLink := some none
  scan := some []
  devices := some []
  carrier := fun _ => false

def hotel (now : ℤ) : Search ℤ :=
  { silence now with scan := some [⟨"hotel", "aa:bb:cc:00:00:01", 6, -50, true⟩] }

/-- Three sweeps of the medium loop, the second of which reuses what the first found. -/
theorem scans_rested_hotel :
    (Runs.exec step (start 120 true) [hotel 0, hotel 10, hotel 120]).scanned.Pairwise
      (Search.Rested 120) :=
  (scans_rested_iff 120 true [hotel 0, hotel 10, hotel 120] (by decide)).mpr (by decide)

/-- Where nothing is heard every pass of the medium loop scans. -/
theorem silence_rescanned :
    [silence 0, silence 10].Pairwise (fun a b => a.now ≤ b.now) ∧
      ¬(Runs.exec step (start 120 true) [silence 0, silence 10]).scanned.Pairwise
        (Search.Rested 120) := by
  decide

end Radioed

-- ---------------------------------------------------------------------------
-- What is reused
-- ---------------------------------------------------------------------------

/-- What is kept is what some scan came to. -/
def Discoverer.Heard (d : Discoverer K) : Prop :=
  ∃ link scan, d.lastWifiAtomics = discoverWifi link scan

namespace Discoverer

variable {d : Discoverer K} {c : Search K}

theorem heard_throttled (h : d.Heard) :
    (d.discoverWifiThrottled c).2.2.Heard ∧
      ∀ l, (d.discoverWifiThrottled c).2.1 = some l → ∃ link scan, l = discoverWifi link scan := by
  unfold discoverWifiThrottled Search.discoverWifi
  split
  · exact ⟨h, fun l hl => Option.some.inj hl ▸ h⟩
  · cases c.stationLink with
    | none => exact ⟨h, fun l hl => by cases hl⟩
    | some link =>
      cases c.scan with
      | none => exact ⟨h, fun l hl => by cases hl⟩
      | some scan => exact ⟨⟨link, scan, rfl⟩, fun l hl => ⟨link, scan, (Option.some.inj hl).symm⟩⟩

theorem heard_discover (h : d.Heard) : (d.discover c).2.2.Heard := by
  unfold discover
  split
  · exact (heard_throttled h).1
  · exact h

theorem discover_fresh (h : d.Heard) (ha : a ∈ (d.discover c).2.1) : a.Fresh := by
  have husb : ∀ l, c.usb = some l → ∃ devices carrier, l = discoverUsb devices carrier := by
    intro l hl
    obtain ⟨devices, -, rfl⟩ := Option.map_eq_some_iff.mp hl
    exact ⟨devices, c.carrier, rfl⟩
  unfold discover at ha
  split at ha
  · exact sweep_fresh (heard_throttled h).2 husb ha
  · exact sweep_fresh (fun l hl => by cases hl) husb ha

theorem discover_fresh_exec (interval : K) (wifi : Bool) (cs : List (Search K))
    (ha : a ∈ ((Runs.exec Radioed.step (.start interval wifi) cs).discoverer.discover c).2.1) :
    a.Fresh :=
  discover_fresh
    (Runs.exec_keeps (P := fun s : Radioed K => s.discoverer.Heard)
      (fun _ _ _ h => heard_discover h) ⟨none, [], rfl⟩) ha

end Discoverer

end Wifucked
