import Wifucked.Lib.Disk
import Wifucked.Lib.Numerals

/-!
# Factory reset by boot count

The script that counts boots, each run of which a power cut may end anywhere,
and the order in which systemd starts its unit and the daemon's. Where the count
is reached, the script's last step waits for the daemon, which waits for the
script.
-/

namespace Wifucked.BootCount

-- ---------------------------------------------------------------------------
-- Units
-- ---------------------------------------------------------------------------

/-- What of a unit file decides when the unit is started. -/
structure Unit where
  name : String
  oneshot : Bool
  before : List String
  after : List String

def bootcountUnit : Unit where
  name := "wifucked-bootcount.service"
  oneshot := true
  before := ["wifucked.service"]
  after := ["local-fs.target"]

def daemonUnit : Unit where
  name := "wifucked.service"
  oneshot := false
  before := []
  after := ["network.target", "wifucked-firstboot.service", "systemd-networkd.service"]

def units : List Unit := [bootcountUnit, daemonUnit]

/-- The first of two units comes before the second. -/
def Unit.Precedes (u v : Unit) : Prop := v.name ∈ u.before ∨ u.name ∈ v.after

instance (u v : Unit) : Decidable (u.Precedes v) := inferInstanceAs (Decidable (_ ∨ _))

/-- A job that starts a unit waits for each oneshot unit before it to exit. -/
def WaitsFor (name : String) (u : Unit) : Prop :=
  u.oneshot = true ∧ ∃ v ∈ units, v.name = name ∧ u.Precedes v

instance (name : String) (u : Unit) : Decidable (WaitsFor name u) :=
  inferInstanceAs (Decidable (_ ∧ _))

-- ---------------------------------------------------------------------------
-- The script
-- ---------------------------------------------------------------------------

inductive Path where
  /-- `.bootcount`. -/
  | counter
  | atomics
  | config
  /-- A `.nmconnection` file. -/
  | connection (name : String)
  /-- Anything else, such as `.identity-generated` and `telemetry.db`. -/
  | other (path : String)
  deriving DecidableEq, Repr

inductive Step where
  | file (op : Disk.Op Path)
  /-- `systemctl restart`, which waits for its job. -/
  | restart (unit : String)
  deriving DecidableEq

def Step.ops : Step → List (Disk.Op Path)
  | .file op => [op]
  | .restart _ => []

def threshold : ℕ := 3

def clearAfter : ℕ := 60

/-- What the arithmetic of the shell makes of the file, which is only ever
written by `echo`. -/
def readCount (text : String) : ℕ :=
  (Numerals.nat 10 (text.toList.reverse.dropWhile (· = '\n')).reverse).getD 0

def count (d : Disk Path) : ℕ := ((d .counter).map readCount).getD 0 + 1

/-- What a boot removes if the count is reached; these connections are there. -/
def removals (connections : List String) : List Step :=
  [.file (.remove .atomics), .file (.remove .config)] ++
    connections.map (fun name => .file (.remove (.connection name))) ++ [.file (.remove .counter)]

def reset (connections : List String) : List Step :=
  removals connections ++ [.restart daemonUnit.name]

def script (d : Disk Path) (connections : List String) : List Step :=
  .file (.write .counter (toString (count d) ++ "\n")) ::
    if threshold ≤ count d then reset connections else []

/-- How a boot ends: before it has done more than so many steps of the script, or
so many seconds after the script's end. -/
inductive End where
  | cut (steps : ℕ)
  | after (seconds : ℕ)
  deriving DecidableEq, Repr

structure Boot where
  connections : List String
  ended : End

/-- The steps that a boot gets to, among them the one that it waits at for ever. -/
def reached (d : Disk Path) (boot : Boot) : List Step :=
  match boot.ended with
  | .cut steps => (script d boot.connections).take steps
  | .after _ => script d boot.connections

def background (d : Disk Path) (boot : Boot) : List (Disk.Op Path) :=
  match boot.ended with
  | .cut _ => []
  | .after seconds =>
    if count d < threshold ∧ clearAfter ≤ seconds then [.remove .counter] else []

def done (d : Disk Path) (boot : Boot) : List (Disk.Op Path) :=
  (reached d boot).flatMap Step.ops ++ background d boot

def step (d : Disk Path) (boot : Boot) : Disk Path := d.run (done d boot)

-- ---------------------------------------------------------------------------
-- What is asked of a boot
-- ---------------------------------------------------------------------------

def counted (n : ℕ) : String := toString n ++ "\n"

def Wrote (d : Disk Path) (boot : Boot) : Prop := .write .counter (counted (count d)) ∈ done d boot

def Removed (d : Disk Path) (boot : Boot) : Prop := .remove .counter ∈ done d boot

instance (d : Disk Path) (boot : Boot) : Decidable (Wrote d boot) :=
  inferInstanceAs (Decidable (_ ∈ _))

instance (d : Disk Path) (boot : Boot) : Decidable (Removed d boot) :=
  inferInstanceAs (Decidable (_ ∈ _))

structure Device where
  disk : Disk Path
  written : ℕ

def Device.step (s : Device) (boot : Boot) : Device where
  disk := BootCount.step s.disk boot
  written :=
    if Removed s.disk boot then 0 else if Wrote s.disk boot then s.written + 1 else s.written

def Resets (d : Disk Path) (boot : Boot) : Prop :=
  .file (.remove .atomics) ∈ script d boot.connections ∧
    .file (.remove .config) ∈ script d boot.connections ∧
      ∀ name ∈ boot.connections, .file (.remove (.connection name)) ∈ script d boot.connections

structure Right (s : Device) (boot : Boot) : Prop where
  third : Wrote s.disk boot → (Resets s.disk boot ↔ 3 ≤ s.written + 1)
  /-- With nothing to cut it short, the reset is performed. -/
  performed : 3 ≤ s.written + 1 → ∀ seconds, boot.ended = .after seconds →
    (s.step boot).disk .atomics = none ∧ (s.step boot).disk .config = none ∧
      ∀ name ∈ boot.connections, (s.step boot).disk (.connection name) = none
  /-- What is reached of a reset is reached on a boot that resets. -/
  only : .file (.remove .atomics) ∈ reached s.disk boot ∨
    .file (.remove .config) ∈ reached s.disk boot ∨
      (∃ name, .file (.remove (.connection name)) ∈ reached s.disk boot) →
    Resets s.disk boot
  /-- Until then, what clears the counter is to last long enough. -/
  cleared : s.written + 1 < 3 → (Removed s.disk boot ↔
    ∃ seconds, boot.ended = .after seconds ∧ clearAfter ≤ seconds)
  kept : ∀ path, (s.step boot).disk (.other path) = s.disk (.other path)
  /-- No step waits for a job that waits for the script. -/
  free : ∀ unit, .restart unit ∈ reached s.disk boot → ¬WaitsFor unit bootcountUnit

def End.CutBy (n : ℕ) : End → Prop
  | .cut steps => steps ≤ n
  | .after _ => False

instance (n : ℕ) : ∀ e : End, Decidable (e.CutBy n)
  | .cut steps => inferInstanceAs (Decidable (steps ≤ n))
  | .after _ => inferInstanceAs (Decidable False)

def CutShort (d : Disk Path) (boot : Boot) : Prop :=
  3 ≤ count d → boot.ended.CutBy (boot.connections.length + 4)

instance (d : Disk Path) (boot : Boot) : Decidable (CutShort d boot) :=
  inferInstanceAs (Decidable (_ → _))

-- ---------------------------------------------------------------------------
-- The steps of one boot
-- ---------------------------------------------------------------------------

variable {d : Disk Path} {boot : Boot} {connections : List String}

theorem mem_reached (h : st ∈ reached d boot) : st ∈ script d boot.connections := by
  unfold reached at h
  split at h
  · exact List.mem_of_mem_take h
  · exact h

/-- Everything but the write is done by boots at the threshold only. -/
theorem mem_script : st ∈ script d connections ↔
    st = .file (.write .counter (counted (count d))) ∨
      threshold ≤ count d ∧ st ∈ reset connections := by
  unfold script counted
  split
  · rename_i h
    simp [h]
  · rename_i h
    simp [h]

theorem resets_iff : Resets d boot ↔ threshold ≤ count d := by
  simp only [Resets, mem_script, reset, removals]
  constructor
  · intro h
    simpa using h.1
  · intro h
    simp [h]

theorem threshold_of_remove {path : Path} (h : .file (.remove path) ∈ script d connections) :
    threshold ≤ count d := by
  rcases mem_script.mp h with h | h
  · cases h
  · exact h.1

theorem restart_not_mem_removals (unit : String) : .restart unit ∉ removals connections := by
  simp [removals]

theorem length_removals : (removals connections).length = connections.length + 3 := by
  simp [removals]

theorem restart_mem_reached (unit : String) : .restart unit ∈ reached d boot ↔
    unit = daemonUnit.name ∧ ¬CutShort d boot := by
  have hall : .restart unit ∈ script d boot.connections ↔
      unit = daemonUnit.name ∧ threshold ≤ count d := by
    rw [mem_script]
    simp only [reset, List.mem_append, restart_not_mem_removals, List.mem_singleton,
      Step.restart.injEq, reduceCtorEq, false_or]
    exact and_comm
  cases hended : boot.ended with
  | after seconds => simp [reached, CutShort, End.CutBy, hended, hall, threshold]
  | cut steps =>
    simp only [reached, hended, CutShort, End.CutBy, Classical.not_imp]
    by_cases hcount : threshold ≤ count d
    · have hscript : script d boot.connections =
          (.file (.write .counter (counted (count d))) :: removals boot.connections) ++
            [.restart daemonUnit.name] := by
        simp [script, hcount, reset, counted]
      have hnot : .restart unit ∉ (.file (.write .counter (counted (count d))) ::
          removals boot.connections : List Step) := by
        simp [restart_not_mem_removals]
      rw [hscript, Disk.mem_take_concat hnot, Step.restart.injEq, List.length_cons, length_removals]
      constructor
      · rintro ⟨hname, hlt⟩
        exact ⟨hname, hcount, by omega⟩
      · rintro ⟨hname, -, hle⟩
        exact ⟨hname, by omega⟩
    · have hnot : .restart unit ∉ (script d boot.connections).take steps := fun h =>
        hcount (hall.mp (List.mem_of_mem_take h)).2
      refine ⟨fun h => absurd h hnot, fun h => absurd h.2.1 hcount⟩

-- ---------------------------------------------------------------------------
-- The counter
-- ---------------------------------------------------------------------------

theorem readCount_counted (n : ℕ) : readCount (counted n) = n := by
  have htext : (counted n).toList = Nat.toDigits 10 n ++ ['\n'] := by
    simp [counted, Nat.toList_repr]
  have hdigits : (Nat.toDigits 10 n).reverse.dropWhile (· = '\n') =
      (Nat.toDigits 10 n).reverse := by
    rw [List.dropWhile_eq_self_iff]
    intro hlen hnewline
    have hmem := List.getElem_mem hlen
    rw [List.mem_reverse] at hmem
    obtain ⟨digit, hdigit, hc⟩ := Numerals.mem_toDigits (by decide) hmem
    have hplain := (Numerals.digitChar_plain (d := digit) (by omega)).1
    rw [← hc, of_decide_eq_true hnewline] at hplain
    exact absurd hplain (by decide)
  simp [readCount, htext, hdigits, Numerals.nat_toDigits]

def Counted (s : Device) : Prop :=
  s.disk .counter = if s.written = 0 then none else some (counted s.written)

theorem count_of_counted {s : Device} (h : Counted s) : count s.disk = s.written + 1 := by
  unfold count
  rw [h]
  cases s.written with
  | zero => rfl
  | succ n => simp [readCount_counted]

theorem ops_reset (hst : st ∈ reset connections) (hop : op ∈ st.ops) :
    ∃ path, op = .remove path ∧ ∀ other, path ≠ .other other := by
  simp only [reset, removals, List.mem_append, List.mem_cons, List.mem_map, List.not_mem_nil,
    or_false] at hst
  rcases hst with (((rfl | rfl) | ⟨name, -, rfl⟩) | rfl) | rfl
  · exact ⟨_, List.mem_singleton.mp hop, by simp⟩
  · exact ⟨_, List.mem_singleton.mp hop, by simp⟩
  · exact ⟨_, List.mem_singleton.mp hop, by simp⟩
  · exact ⟨_, List.mem_singleton.mp hop, by simp⟩
  · cases hop

theorem background_eq (hop : op ∈ background d boot) : op = .remove .counter := by
  unfold background at hop
  split at hop
  · cases hop
  · split at hop
    · exact List.mem_singleton.mp hop
    · cases hop

theorem done_eq (d : Disk Path) (boot : Boot) : done d boot = [] ∨
    ∃ rest, done d boot = .write .counter (counted (count d)) :: rest ∧
      ∀ op ∈ rest, op.path = .counter → op = .remove .counter := by
  have hrest : ∀ st ∈ (if threshold ≤ count d then reset boot.connections else []),
      ∀ op ∈ st.ops, op.path = .counter → op = .remove .counter := by
    intro st hst op hop hpath
    split at hst
    · obtain ⟨path, rfl, -⟩ := ops_reset hst hop
      exact congrArg Disk.Op.remove hpath
    · cases hst
  cases hended : boot.ended with
  | cut steps =>
    cases steps with
    | zero => exact .inl (by simp [done, reached, background, hended])
    | succ steps =>
      refine .inr ⟨_,
        by simp [done, reached, background, hended, script, Step.ops, counted]; rfl, ?_⟩
      intro op hop
      obtain ⟨st, hst, hop⟩ := List.mem_flatMap.mp hop
      exact hrest st (List.mem_of_mem_take hst) op hop
  | after seconds =>
    refine .inr ⟨_, by simp [done, reached, hended, script, Step.ops, counted]; rfl, ?_⟩
    intro op hop
    rcases List.mem_append.mp hop with hop | hop
    · obtain ⟨st, hst, hop⟩ := List.mem_flatMap.mp hop
      exact hrest st hst op hop
    · exact fun _ => background_eq hop

theorem counted_step {s : Device} (h : Counted s) (boot : Boot) : Counted (s.step boot) := by
  have hcount := count_of_counted h
  unfold Counted at h ⊢
  unfold Device.step
  rcases done_eq s.disk boot with hdone | ⟨rest, hdone, hrest⟩
  · have hremoved : ¬Removed s.disk boot := by simp [Removed, hdone]
    have hwrote : ¬Wrote s.disk boot := by simp [Wrote, hdone]
    simpa only [hremoved, hwrote, step, hdone, if_false, Disk.run_nil] using h
  · have hwrote : Wrote s.disk boot := by simp [Wrote, hdone]
    have hremoved : Removed s.disk boot ↔ .remove .counter ∈ rest := by simp [Removed, hdone]
    simp only [step, hdone, Disk.run_cons, Disk.run_removes hrest, hwrote, if_true, hremoved]
    split
    · rfl
    · simp [hcount]

theorem removed_iff (h : count d < threshold) (boot : Boot) :
    Removed d boot ↔ ∃ seconds, boot.ended = .after seconds ∧ clearAfter ≤ seconds := by
  have hscript : script d boot.connections = [.file (.write .counter (counted (count d)))] := by
    simp [script, counted, Nat.not_le.mpr h]
  unfold Removed done reached background
  cases boot.ended with
  | cut steps =>
    rw [hscript]
    cases steps <;> simp [Step.ops]
  | after seconds => simp [hscript, Step.ops, h]

theorem mem_done (hop : op ∈ done d boot) : op = .write .counter (counted (count d)) ∨
    ∃ path, op = .remove path ∧ ∀ other, path ≠ .other other := by
  rcases List.mem_append.mp hop with hop | hop
  · obtain ⟨st, hst, hop⟩ := List.mem_flatMap.mp hop
    rcases mem_script.mp (mem_reached hst) with rfl | ⟨-, hst⟩
    · exact .inl (List.mem_singleton.mp hop)
    · exact .inr (ops_reset hst hop)
  · exact .inr ⟨_, background_eq hop, by simp⟩

theorem step_other (path : String) : step d boot (.other path) = d (.other path) := by
  refine Disk.run_other fun op hop => ?_
  rcases mem_done hop with rfl | ⟨removed, rfl, hne⟩
  · simp [Disk.Op.path]
  · exact hne path

theorem step_reset (hcount : threshold ≤ count d) (hended : boot.ended = .after seconds)
    (hp : .file (.remove path) ∈ reset boot.connections) (hne : path ≠ .counter) :
    step d boot path = none := by
  have hmem : .remove path ∈ done d boot := by
    refine List.mem_append_left _ (List.mem_flatMap.mpr ⟨.file (.remove path), ?_, .head _⟩)
    simp only [reached, hended]
    exact mem_script.mpr (.inr ⟨hcount, hp⟩)
  refine (Disk.run_removes fun op hop hpath => ?_).trans (if_pos hmem)
  rcases mem_done hop with rfl | ⟨removed, rfl, -⟩
  · exact absurd hpath (Ne.symm hne)
  · exact congrArg Disk.Op.remove hpath

theorem waitsFor_daemon : WaitsFor daemonUnit.name bootcountUnit := by decide

theorem right_iff {s : Device} (h : Counted s) (boot : Boot) :
    Right s boot ↔ CutShort s.disk boot := by
  have hcount := count_of_counted h
  constructor
  · intro hright
    by_contra hlong
    exact hright.free daemonUnit.name ((restart_mem_reached _).mpr ⟨rfl, hlong⟩) waitsFor_daemon
  · intro hcut
    constructor
    · intro _
      rw [resets_iff, hcount, threshold]
    · intro hwritten seconds hended
      rw [← hcount] at hwritten
      refine ⟨step_reset hwritten hended (by simp [reset, removals]) (by simp),
        step_reset hwritten hended (by simp [reset, removals]) (by simp), fun name hname => ?_⟩
      exact step_reset hwritten hended (by simp [reset, removals, hname]) (by simp)
    · intro hreached
      rw [resets_iff]
      rcases hreached with h | h | ⟨name, h⟩
      · exact threshold_of_remove (mem_reached h)
      · exact threshold_of_remove (mem_reached h)
      · exact threshold_of_remove (mem_reached h)
    · intro hwritten
      exact removed_iff (by rw [hcount]; exact hwritten) boot
    · exact fun path => step_other path
    · intro unit hunit
      exact absurd hcut ((restart_mem_reached unit).mp hunit).2

/-- Every boot of a run is right exactly if each that comes to the threshold is
cut before it gets to the step that waits. -/
theorem boots_right_iff {d : Disk Path} (h : d .counter = none) (boots : List Boot) :
    Runs.Along Device.step Right ⟨d, 0⟩ boots ↔
      Runs.Along Device.step (fun s boot => CutShort s.disk boot) ⟨d, 0⟩ boots := by
  have hcounted : Counted ⟨d, 0⟩ := h
  exact Runs.along_iff (fun _ boot hs _ => counted_step hs boot)
    (fun _ boot hs => right_iff hs boot) hcounted

def blank : Disk Path := fun _ => none

/-- Two short boots around one that is left alone. -/
theorem boots_right_cleared : Runs.Along Device.step Right ⟨blank, 0⟩
    [⟨[], .after 20⟩, ⟨["home.nmconnection"], .after 3600⟩, ⟨[], .cut 1⟩] :=
  (boots_right_iff rfl _).mpr (by decide +kernel)

/-- Three short boots, as they are asked for: the third waits for ever. -/
theorem reset_waits : ¬Runs.Along Device.step Right ⟨blank, 0⟩
    [⟨[], .after 20⟩, ⟨[], .after 20⟩, ⟨["home.nmconnection"], .after 3600⟩] := by
  rintro ⟨-, -, hthird, -⟩
  refine hthird.free daemonUnit.name ((restart_mem_reached _).mpr ⟨rfl, ?_⟩) waitsFor_daemon
  decide +kernel

end Wifucked.BootCount
