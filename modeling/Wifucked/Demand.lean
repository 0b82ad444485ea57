import Wifucked.Lib.Runs
import Wifucked.Allocator
import Wifucked.Lan
import Wifucked.Probe.Rates

/-!
# Demand, read off the counters of the LAN

What an interface transmits is its clients' download. A rate is what the
counter gained since the sample before, over the time between; a counter that
cannot be read counts as zero, and one of a new interface starts there.
-/

namespace Wifucked

variable {K : Type}

-- ---------------------------------------------------------------------------
-- Counters
-- ---------------------------------------------------------------------------

structure Traffic where
  rx : ℕ
  tx : ℕ
  deriving DecidableEq, Repr

def Traffic.zero : Traffic := ⟨0, 0⟩

def Traffic.add (t u : Traffic) : Traffic := ⟨t.rx + u.rx, t.tx + u.tx⟩

/-- `_read`: the text of a file without its outer space, where there is any. -/
def readText (text : Option String) : Option (List Char) :=
  (text.map fun text => Numerals.strip text.toList).filter (· ≠ [])

/-- `LinuxNet.counters`, of the texts of both files. -/
def linuxCounters (rx tx : Option String) : Int × Int :=
  match Numerals.int ((readText rx).getD ['0']), Numerals.int ((readText tx).getD ['0']) with
  | some rx, some tx => (rx, tx)
  | _, _ => (0, 0)

/-- Which of the two files of an interface are not read. -/
structure Unread where
  rx : Bool
  tx : Bool
  deriving DecidableEq, Repr

def counterText (n : ℕ) : String := toString n ++ "\n"

def Traffic.read (t : Traffic) (u : Unread) : Int × Int :=
  linuxCounters (if u.rx then none else some (counterText t.rx))
    (if u.tx then none else some (counterText t.tx))

theorem readText_counterText (n : ℕ) :
    readText (some (counterText n)) = some (Nat.toDigits 10 n) := by
  have hdigits : Numerals.strip (Nat.toDigits 10 n) = Nat.toDigits 10 n :=
    Numerals.strip_of_no_space fun c hc => by
      obtain ⟨d, hd, rfl⟩ := Numerals.mem_toDigits (by decide) hc
      exact (Numerals.digitChar_plain (by omega)).1
  have hspace : ∀ c ∈ ['\n'], Numerals.isSpace c = true := by
    intro c hc
    obtain rfl := List.mem_singleton.mp hc
    rfl
  have hline := Numerals.strip_strip_append (l := Nat.toDigits 10 n) hspace
  rw [hdigits] at hline
  simp [readText, counterText, Nat.toString_eq_repr, Nat.toList_repr, hline, Nat.toDigits_ne_nil]

theorem read_eq (t : Traffic) (u : Unread) :
    t.read u = ((if u.rx then 0 else (t.rx : ℤ)), (if u.tx then 0 else (t.tx : ℤ))) := by
  have hint (n : ℕ) (b : Bool) : Numerals.int ((readText (if b then none else
      some (counterText n))).getD ['0']) = some (if b then 0 else (n : ℤ)) := by
    cases b with
    | true => simpa [readText] using (by decide : Numerals.int ['0'] = some 0)
    | false =>
      have hread := Numerals.int_toString (n : ℤ)
      rw [Numerals.toList_toString] at hread
      simpa [readText_counterText] using hread
  simp only [Traffic.read, linuxCounters, hint]

-- ---------------------------------------------------------------------------
-- Samples
-- ---------------------------------------------------------------------------

structure Sampled (K : Type) where
  profileName : String
  now : K
  rx : Int
  tx : Int
  deriving DecidableEq

structure CounterDemand (K : Type) where
  profiles : List ServiceProfile
  /-- Samples are kept under the names. -/
  nodup : (profiles.map (·.name)).Nodup
  lanMode : String
  baseInterface : String
  last : Keyed (Sampled K) Sampled.profileName

namespace CounterDemand

def ifname (d : CounterDemand K) (profile : ServiceProfile) : String :=
  lanIfnameForProfile profile d.lanMode d.baseInterface

variable [Field K] [LinearOrder K] [FloorRing K]

def demandOf (d : CounterDemand K) (now : K) (profile : ServiceProfile) (read : Int × Int) :
    ClassDemand :=
  match d.last.get? profile.name with
  | none => ⟨profile.name, 0, 0, false⟩
  | some previous =>
    let elapsed := now - previous.now
    if elapsed ≤ 0 then ⟨profile.name, 0, 0, false⟩
    else
      { profileName := profile.name
        downBps := throughput elapsed previous.tx read.2
        upBps := throughput elapsed previous.rx read.1
        constrained := false }

theorem profileName_demandOf (d : CounterDemand K) (now : K) (profile : ServiceProfile)
    (read : Int × Int) : (d.demandOf now profile read).profileName = profile.name := by
  unfold demandOf
  split
  · rfl
  · dsimp only
    split <;> rfl

/-- One class after the other. -/
def sampleFrom (now : K) (counters : String → Int × Int) (d : CounterDemand K) :
    List ServiceProfile → CounterDemand K × List ClassDemand
  | [] => (d, [])
  | profile :: profiles =>
    let (rx, tx) := counters (d.ifname profile)
    let demand := d.demandOf now profile (rx, tx)
    let d := { d with last := d.last.put ⟨profile.name, now, rx, tx⟩ }
    let (d, result) := sampleFrom now counters d profiles
    (d, demand :: result)

def sample (d : CounterDemand K) (now : K) (counters : String → Int × Int) :
    CounterDemand K × List ClassDemand := d.sampleFrom now counters d.profiles

def sampled (d : CounterDemand K) (now : K) (counters : String → Int × Int)
    (profile : ServiceProfile) : Sampled K :=
  ⟨profile.name, now, (counters (d.ifname profile)).1, (counters (d.ifname profile)).2⟩

theorem sampleFrom_frame (now : K) (counters : String → Int × Int) (d : CounterDemand K)
    (profiles : List ServiceProfile) : (d.sampleFrom now counters profiles).1 =
      { d with last := (d.sampleFrom now counters profiles).1.last } := by
  induction profiles generalizing d with
  | nil => rfl
  | cons profile profiles ih =>
    simp only [sampleFrom]
    rw [ih]

theorem get?_sampleFrom (now : K) (counters : String → Int × Int) (d : CounterDemand K)
    {profiles : List ServiceProfile} (hn : (profiles.map (·.name)).Nodup) (name : String) :
    (d.sampleFrom now counters profiles).1.last.get? name =
      ((profiles.find? fun p => p.name = name).map (d.sampled now counters)).or
        (d.last.get? name) := by
  induction profiles generalizing d with
  | nil => rfl
  | cons profile profiles ih =>
    obtain ⟨hnot, hn⟩ := List.nodup_cons.mp hn
    simp only [sampleFrom]
    rw [ih _ hn, Keyed.get?_put]
    by_cases h : profile.name = name
    · have hnone : profiles.find? (fun p => p.name = name) = none := by
        refine List.find?_eq_none.mpr fun p hp hpn => hnot (List.mem_map.mpr ⟨p, hp, ?_⟩)
        exact (of_decide_eq_true hpn).trans h.symm
      simp [h, hnone, sampled]
    · simp [h]
      rfl

/-- A sample leaves what it read of each class. -/
theorem get?_sample (d : CounterDemand K) (now : K) (counters : String → Int × Int)
    {profile : ServiceProfile} (h : profile ∈ d.profiles) :
    (d.sample now counters).1.last.get? profile.name = some (d.sampled now counters profile) := by
  have hfind : d.profiles.find? (fun p => p.name = profile.name) = some profile := by
    cases hfind : d.profiles.find? fun p => p.name = profile.name with
    | none => exact absurd (List.find?_eq_none.mp hfind profile h) (by simp)
    | some p =>
      have hname : p.name = profile.name := by simpa using List.find?_some hfind
      rw [List.inj_on_of_nodup_map d.nodup (List.mem_of_find?_eq_some hfind) h hname]
  rw [sample, get?_sampleFrom now counters d d.nodup, hfind]
  rfl

theorem sampleFrom_result (now : K) (counters : String → Int × Int) (d : CounterDemand K)
    {profiles : List ServiceProfile} (hn : (profiles.map (·.name)).Nodup) :
    (d.sampleFrom now counters profiles).2 =
      profiles.map fun p => d.demandOf now p (counters (d.ifname p)) := by
  induction profiles generalizing d with
  | nil => rfl
  | cons profile profiles ih =>
    obtain ⟨hnot, hn⟩ := List.nodup_cons.mp hn
    simp only [sampleFrom, List.map_cons]
    rw [ih _ hn]
    refine congrArg _ (List.map_congr_left fun p hp => ?_)
    have hne : profile.name ≠ p.name := fun h => hnot (List.mem_map.mpr ⟨p, hp, h.symm⟩)
    simp only [demandOf, Keyed.get?_put, hne, if_false]
    rfl

end CounterDemand

-- ---------------------------------------------------------------------------
-- Runs
-- ---------------------------------------------------------------------------

structure Sampling (K : Type) where
  demand : CounterDemand K
  /-- The counters of each interface. -/
  bytes : String → Traffic
  /-- What it really carried since the last sample. -/
  since : String → Traffic
  /-- What the last sample could not read. -/
  unread : String → Unread

inductive Sampler (K : Type) where
  | carry (ifname : String) (traffic : Traffic)
  | recreate (ifname : String)
  | sample (now : K) (unread : String → Unread)

namespace Sampling

def init (demand : CounterDemand K) (bytes : String → Traffic) : Sampling K :=
  ⟨{ demand with last := .empty }, bytes, fun _ => .zero, fun _ => ⟨false, false⟩⟩

def counters (s : Sampling K) (unread : String → Unread) (ifname : String) : Int × Int :=
  (s.bytes ifname).read (unread ifname)

variable [Field K] [LinearOrder K] [FloorRing K]

def step (s : Sampling K) : Sampler K → Sampling K
  | .carry ifname traffic =>
    { s with
      bytes := Function.update s.bytes ifname ((s.bytes ifname).add traffic)
      since := Function.update s.since ifname ((s.since ifname).add traffic) }
  | .recreate ifname => { s with bytes := Function.update s.bytes ifname .zero }
  | .sample now unread =>
    { s with
      demand := (s.demand.sample now (s.counters unread)).1
      since := fun _ => .zero
      unread }

/-- The rates of a class come to no more than its interface carried. -/
def Carried (s : Sampling K) (elapsed : K) (profile : ServiceProfile) (d : ClassDemand) : Prop :=
  (d.downBps : K) * elapsed ≤ 8 * (s.since (s.demand.ifname profile)).tx ∧
    (d.upBps : K) * elapsed ≤ 8 * (s.since (s.demand.ifname profile)).rx

/-- No rate that a sample returns is too high. -/
def Understated (s : Sampling K) : Sampler K → Prop
  | .sample now unread => ∀ d ∈ (s.demand.sample now (s.counters unread)).2,
      ∀ profile ∈ s.demand.profiles, d.profileName = profile.name →
        ∀ previous ∈ s.demand.last.get? profile.name, s.Carried (now - previous.now) profile d
  | _ => True

/-- A counter that is read, and was not at the last sample, holds hardly
anything of before that: no more than what is lost in rounding. -/
def Fresh (elapsed : K) (was now : Bool) (bytes since : ℕ) : Prop :=
  was = true → now = false →
    8 * ((bytes : K) - since) ≤ Int.fract (8 * (bytes : K) / elapsed) * elapsed

def Explained (s : Sampling K) : Sampler K → Prop
  | .sample now unread => ∀ profile ∈ s.demand.profiles,
      ∀ previous ∈ s.demand.last.get? profile.name, 0 < now - previous.now →
        let ifname := s.demand.ifname profile
        Fresh (now - previous.now) (s.unread ifname).tx (unread ifname).tx (s.bytes ifname).tx
            (s.since ifname).tx ∧
          Fresh (now - previous.now) (s.unread ifname).rx (unread ifname).rx (s.bytes ifname).rx
            (s.since ifname).rx
  | _ => True

/-- What the last sample left of a counter: nothing, or all but what it gained
since. -/
structure Left (was : Bool) (last : ℤ) (bytes since : ℕ) : Prop where
  unread : was = true → last = 0
  read : was = false → 0 ≤ last ∧ (bytes : ℤ) ≤ last + since

/-- Both counters of a class are what its last sample left of them. -/
def Tracked (s : Sampling K) : Prop :=
  ∀ profile ∈ s.demand.profiles, ∀ previous ∈ s.demand.last.get? profile.name,
    let ifname := s.demand.ifname profile
    Left (s.unread ifname).tx previous.tx (s.bytes ifname).tx (s.since ifname).tx ∧
      Left (s.unread ifname).rx previous.rx (s.bytes ifname).rx (s.since ifname).rx

theorem Left.carry {bytes since : ℕ} (h : Left was last bytes since) (n : ℕ) :
    Left was last (bytes + n) (since + n) :=
  ⟨h.unread, fun hwas => ⟨(h.read hwas).1, by have := (h.read hwas).2; omega⟩⟩

theorem Left.zero {bytes since : ℕ} (h : Left was last bytes since) : Left was last 0 since :=
  ⟨h.unread, fun hwas => ⟨(h.read hwas).1, by have := (h.read hwas).1; omega⟩⟩

theorem left_read (was : Bool) (bytes : ℕ) : Left was (if was then 0 else (bytes : ℤ)) bytes 0 :=
  ⟨fun h => by simp [h], fun h => by simp [h]⟩

omit [Field K] [LinearOrder K] [FloorRing K] in
theorem tracked_init (demand : CounterDemand K) (bytes : String → Traffic) :
    (init demand bytes).Tracked := fun _ _ _ h => nomatch h

theorem tracked_step {s : Sampling K} (h : s.Tracked) (i : Sampler K) : (s.step i).Tracked := by
  cases i with
  | carry ifname traffic =>
    intro profile hprofile previous hprevious
    obtain ⟨htx, hrx⟩ := h profile hprofile previous hprevious
    simp only [step, Function.update_apply, CounterDemand.ifname] at *
    split
    · rename_i hi
      rw [hi] at htx hrx ⊢
      exact ⟨htx.carry traffic.tx, hrx.carry traffic.rx⟩
    · exact ⟨htx, hrx⟩
  | recreate ifname =>
    intro profile hprofile previous hprevious
    obtain ⟨htx, hrx⟩ := h profile hprofile previous hprevious
    simp only [step, Function.update_apply, CounterDemand.ifname] at *
    split
    · exact ⟨htx.zero, hrx.zero⟩
    · exact ⟨htx, hrx⟩
  | sample now unread =>
    have hframe : (s.demand.sample now (s.counters unread)).1 =
        { s.demand with last := (s.demand.sample now (s.counters unread)).1.last } :=
      CounterDemand.sampleFrom_frame ..
    intro profile hprofile previous hprevious
    simp only [step] at hprofile hprevious ⊢
    have hmem : profile ∈ s.demand.profiles := by rwa [hframe] at hprofile
    have hifname : (s.demand.sample now (s.counters unread)).1.ifname profile =
        s.demand.ifname profile := by
      rw [hframe]
      rfl
    rw [CounterDemand.get?_sample _ _ _ hmem] at hprevious
    obtain rfl := Option.some.inj hprevious
    simp only [hifname, CounterDemand.sampled, counters, read_eq]
    exact ⟨left_read _ _, left_read _ _⟩

end Sampling

section

variable [Field K] [LinearOrder K] [IsStrictOrderedRing K] [FloorRing K] {elapsed : K}

theorem throughput_mul_le (he : 0 < elapsed) {previous bytes : ℤ} {since : ℕ}
    (h : bytes - previous ≤ since) :
    (throughput elapsed previous bytes : K) * elapsed ≤ 8 * since := by
  have hbits : max 0 (bytes - previous) * 8 ≤ 8 * (since : ℤ) := by omega
  rw [throughput_eq he]
  calc (⌊((max 0 (bytes - previous) * 8 : ℤ) : K) / elapsed⌋ : K) * elapsed
      ≤ ((max 0 (bytes - previous) * 8 : ℤ) : K) / elapsed * elapsed :=
        mul_le_mul_of_nonneg_right (Int.floor_le _) he.le
    _ = ((max 0 (bytes - previous) * 8 : ℤ) : K) := div_mul_cancel₀ _ he.ne'
    _ ≤ 8 * since := by exact_mod_cast hbits

theorem throughput_zero_mul_le_iff (he : 0 < elapsed) (bytes since : ℕ) :
    (throughput elapsed 0 bytes : K) * elapsed ≤ 8 * since ↔
      8 * ((bytes : K) - since) ≤ Int.fract (8 * (bytes : K) / elapsed) * elapsed := by
  have hbits : ((max 0 ((bytes : ℤ) - 0) * 8 : ℤ) : K) = 8 * bytes := by
    rw [sub_zero, max_eq_right (Int.natCast_nonneg bytes)]
    push_cast
    ring
  have hfloor : (⌊8 * (bytes : K) / elapsed⌋ : K) * elapsed =
      8 * bytes - Int.fract (8 * (bytes : K) / elapsed) * elapsed := by
    rw [← Int.self_sub_fract, sub_mul, div_mul_cancel₀ _ he.ne']
  rw [throughput_eq he, hbits, hfloor]
  constructor <;> intro h <;> linarith

theorem Sampling.direction_iff {was : Bool} {last : ℤ} {bytes since : ℕ}
    (h : Left was last bytes since) (he : 0 < elapsed) (now : Bool) :
    (throughput elapsed last (if now then 0 else (bytes : ℤ)) : K) * elapsed ≤ 8 * since ↔
      Fresh elapsed was now bytes since := by
  cases was with
  | false =>
    obtain ⟨hlast, hbytes⟩ := h.read rfl
    refine iff_of_true (throughput_mul_le he ?_) fun hwas => nomatch hwas
    split <;> omega
  | true =>
    rw [h.unread rfl]
    cases now with
    | true => exact iff_of_true (throughput_mul_le he (by simp)) fun _ hnow => nomatch hnow
    | false =>
      rw [Fresh, if_neg Bool.false_ne_true, throughput_zero_mul_le_iff he]
      simp

namespace Sampling

theorem carried_iff {s : Sampling K} {profile : ServiceProfile} {now : K}
    {previous : Sampled K} {unread : String → Unread}
    (hprevious : s.demand.last.get? profile.name = some previous)
    (htx : Left (s.unread (s.demand.ifname profile)).tx previous.tx
      (s.bytes (s.demand.ifname profile)).tx (s.since (s.demand.ifname profile)).tx)
    (hrx : Left (s.unread (s.demand.ifname profile)).rx previous.rx
      (s.bytes (s.demand.ifname profile)).rx (s.since (s.demand.ifname profile)).rx) :
    s.Carried (now - previous.now) profile
        (s.demand.demandOf now profile (s.counters unread (s.demand.ifname profile))) ↔
      (0 < now - previous.now →
        Fresh (now - previous.now) (s.unread (s.demand.ifname profile)).tx
            (unread (s.demand.ifname profile)).tx (s.bytes (s.demand.ifname profile)).tx
            (s.since (s.demand.ifname profile)).tx ∧
          Fresh (now - previous.now) (s.unread (s.demand.ifname profile)).rx
            (unread (s.demand.ifname profile)).rx (s.bytes (s.demand.ifname profile)).rx
            (s.since (s.demand.ifname profile)).rx) := by
  simp only [Carried, CounterDemand.demandOf, hprevious, counters, read_eq]
  split
  · rename_i hle
    exact iff_of_true (by simp) fun hlt => absurd hlt (not_lt.mpr hle)
  · rename_i hlt
    have he : 0 < now - previous.now := not_le.mp hlt
    rw [direction_iff htx he, direction_iff hrx he]
    exact ⟨fun h _ => h, fun h => h he⟩

theorem understated_iff_explained {s : Sampling K} (h : s.Tracked) (i : Sampler K) :
    s.Understated i ↔ s.Explained i := by
  cases i with
  | carry ifname traffic => exact Iff.rfl
  | recreate ifname => exact Iff.rfl
  | sample now unread =>
    have hresult : (s.demand.sample now (s.counters unread)).2 = s.demand.profiles.map fun p =>
        s.demand.demandOf now p (s.counters unread (s.demand.ifname p)) :=
      CounterDemand.sampleFrom_result now (s.counters unread) s.demand s.demand.nodup
    simp only [Understated, Explained, hresult, List.forall_mem_map]
    constructor
    · intro hall profile hprofile previous hprevious
      obtain ⟨htx, hrx⟩ := h profile hprofile previous hprevious
      exact (carried_iff hprevious htx hrx).mp (hall profile hprofile profile hprofile
        (CounterDemand.profileName_demandOf ..) previous hprevious)
    · intro hall p hp profile hprofile hname previous hprevious
      obtain ⟨htx, hrx⟩ := h profile hprofile previous hprevious
      rw [CounterDemand.profileName_demandOf] at hname
      obtain rfl := List.inj_on_of_nodup_map s.demand.nodup hp hprofile hname
      exact (carried_iff hprevious htx hrx).mpr (hall p hp previous hprevious)

/-- In every run, no demand is overstated, just where a counter that comes back
after it could not be read holds hardly anything of before. -/
theorem understated_iff (demand : CounterDemand K) (bytes : String → Traffic)
    (is : List (Sampler K)) : Runs.Along step Understated (init demand bytes) is ↔
      Runs.Along step Explained (init demand bytes) is :=
  Runs.along_iff (fun _ i h _ => tracked_step h i) (fun _ i h => understated_iff_explained h i)
    (tracked_init demand bytes)

end Sampling

end

namespace Sampling

instance (s : Sampling ℚ) (elapsed : ℚ) (profile : ServiceProfile) (d : ClassDemand) :
    Decidable (s.Carried elapsed profile d) :=
  inferInstanceAs (Decidable (_ ∧ _))

instance (s : Sampling ℚ) : ∀ i, Decidable (s.Understated i)
  | .carry .. | .recreate _ => .isTrue trivial
  | .sample now unread => inferInstanceAs (Decidable
      (∀ d ∈ (s.demand.sample now (s.counters unread)).2, ∀ profile ∈ s.demand.profiles,
        d.profileName = profile.name → ∀ previous ∈ s.demand.last.get? profile.name,
          s.Carried (now - previous.now) profile d))

instance (elapsed : ℚ) (was now : Bool) (bytes since : ℕ) :
    Decidable (Fresh elapsed was now bytes since) :=
  inferInstanceAs (Decidable (_ → _ → _))

instance (s : Sampling ℚ) : ∀ i, Decidable (s.Explained i)
  | .carry .. | .recreate _ => .isTrue trivial
  | .sample now unread => inferInstanceAs (Decidable
      (∀ profile ∈ s.demand.profiles, ∀ previous ∈ s.demand.last.get? profile.name,
        0 < now - previous.now →
          Fresh (now - previous.now) (s.unread (s.demand.ifname profile)).tx
              (unread (s.demand.ifname profile)).tx (s.bytes (s.demand.ifname profile)).tx
              (s.since (s.demand.ifname profile)).tx ∧
            Fresh (now - previous.now) (s.unread (s.demand.ifname profile)).rx
              (unread (s.demand.ifname profile)).rx (s.bytes (s.demand.ifname profile)).rx
              (s.since (s.demand.ifname profile)).rx))

def singleDemand : CounterDemand ℚ where
  profiles := singleLanProfiles
  nodup := by decide
  lanMode := "single"
  baseInterface := "wlan0"
  last := .empty

/-- A counter that could not be read starts again before the next sample. -/
theorem understated_after_recreate :
    Runs.Along step Understated (init singleDemand fun _ => ⟨0, 1000000000⟩)
      [.sample 0 fun _ => ⟨false, false⟩, .carry "wlan0" ⟨5000, 90000⟩,
        .sample 10 fun _ => ⟨false, true⟩, .recreate "wlan0", .carry "wlan0" ⟨700, 8000⟩,
        .sample 20 fun _ => ⟨false, false⟩] :=
  (understated_iff singleDemand _ _).mpr (by decide +kernel)

theorem overstated_after_unread :
    ¬Runs.Along step Understated (init singleDemand fun _ => ⟨0, 1000000000⟩)
      [.sample 0 fun _ => ⟨false, false⟩, .sample 10 fun _ => ⟨false, true⟩,
        .sample 20 fun _ => ⟨false, false⟩] := by
  decide +kernel

end Sampling

end Wifucked
