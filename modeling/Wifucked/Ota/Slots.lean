import Mathlib.Logic.Function.Basic
import Wifucked.Lib.Runs

/-!
# Version slots

The installer unpacks a version into a slot of its own and points `current` at
it. The watchdog runs a grace period after a boot, and leaves the version it
finds, marks it healthy, or points `current` back. A command that fails ends its
script, so that each may do only the first of its steps.
-/

namespace Wifucked.Ota

/-- What the directory of a version holds: less than the package, where it is torn. -/
inductive Slot where
  | absent
  | torn
  | whole
  deriving DecidableEq, Repr

/-- `/opt/wifucked`. A link or a file names a slot by its version. -/
structure Box (υ : Type u) where
  slots : υ → Slot
  current : Option υ
  /-- `none` where the file is missing or empty. -/
  previous : Option υ
  version : Option υ
  healthy : Bool
  /-- `rollback-attempted`, with what `current` was. -/
  stamp : Option (Option υ)

inductive Step (υ : Type u) where
  | slot (version : υ) (content : Slot)
  | link (version : υ)
  | version (version : υ)
  | healthy (present : Bool)
  | previous (version : Option υ)
  | stamp (tried : Option (Option υ))
  deriving DecidableEq, Repr

variable {υ : Type u}

def Box.blank : Box υ where
  slots := fun _ => .absent
  current := none
  previous := none
  version := none
  healthy := false
  stamp := none

-- ---------------------------------------------------------------------------
-- The scripts
-- ---------------------------------------------------------------------------

/-- `rm -rf`, `mkdir -p`, `unzip`. -/
def unpack (b : Box υ) (version : υ) : List (Step υ) :=
  (if b.slots version = .absent then [] else [.slot version .torn, .slot version .absent]) ++
    [.slot version .torn, .slot version .whole]

/-- A redirection empties the file before it is written. -/
def record (b : Box υ) : List (Step υ) :=
  match b.current with
  | none => []
  | some previous => [.previous none, .previous (some previous)]

def updateScript (b : Box υ) (version : υ) : List (Step υ) :=
  unpack b version ++ ([.link version, .version version, .healthy false] ++ record b)

variable [DecidableEq υ]

/-- The part of `watchdog.sh` that an unhealthy version comes to. -/
def rollback (b : Box υ) : List (Step υ) :=
  match b.previous with
  | none => []
  | some revertTo =>
    if b.slots revertTo = .absent then []
    else if b.current = some revertTo then []
    else [.stamp (some b.current), .link revertTo]

def watchdog (b : Box υ) : Bool → List (Step υ)
  | true => [.healthy true, .stamp none]
  | false => rollback b

def firstSteps (steps : List (Step υ)) : Option ℕ → List (Step υ)
  | none => steps
  | some n => steps.take n

/-- A script that ends before it is through has done so many steps. -/
inductive Event (υ : Type u) where
  | update (version : υ) (ended : Option ℕ)
  /-- A boot, and whether its health probes find the version well; `none` where
  they are not made. -/
  | boot (healthy : Option Bool) (ended : Option ℕ)
  deriving DecidableEq, Repr

def done (b : Box υ) : Event υ → List (Step υ)
  | .update version ended => firstSteps (updateScript b version) ended
  | .boot none _ => []
  | .boot (some healthy) ended => firstSteps (watchdog b healthy) ended

def Box.perform (b : Box υ) : Step υ → Box υ
  | .slot version content => { b with slots := Function.update b.slots version content }
  | .link version => { b with current := some version }
  | .version version => { b with version := some version }
  | .healthy present => { b with healthy := present }
  | .previous version => { b with previous := version }
  | .stamp tried => { b with stamp := tried }

def Box.step (b : Box υ) (e : Event υ) : Box υ := Runs.exec Box.perform b (done b e)

-- ---------------------------------------------------------------------------
-- What a script does
-- ---------------------------------------------------------------------------

variable {b : Box υ} {v w : υ} {content : Slot}

omit [DecidableEq υ] in
theorem mem_firstSteps {steps : List (Step υ)} {ended : Option ℕ}
    (h : st ∈ firstSteps steps ended) : st ∈ steps := by
  cases ended with
  | none => exact h
  | some n => exact List.mem_of_mem_take h

omit [DecidableEq υ] in
theorem along_firstSteps {σ : Type v} {step : σ → Step υ → σ} {C : σ → Step υ → Prop} {s : σ}
    {steps : List (Step υ)} (ended : Option ℕ) (h : Runs.Along step C s steps) :
    Runs.Along step C s (firstSteps steps ended) := by
  cases ended with
  | none => exact h
  | some n =>
    rw [← List.take_append_drop n steps] at h
    exact (Runs.along_append.mp h).1

omit [DecidableEq υ] in
theorem slot_mem_updateScript (h : .slot w content ∈ updateScript b v) : w = v := by
  unfold updateScript unpack record at h
  cases hcurrent : b.current <;> by_cases hslot : b.slots v = .absent <;>
    simp [hcurrent, hslot] at h <;> grind

/-- Unless it ends before its first step, an update empties the slot of its version. -/
theorem torn_mem_done {ended : Option ℕ} (h : ended ≠ some 0) :
    .slot v .torn ∈ done b (.update v ended) := by
  have hhead : ∃ steps, updateScript b v = .slot v .torn :: steps := by
    unfold updateScript unpack
    split <;> exact ⟨_, rfl⟩
  obtain ⟨steps, hsteps⟩ := hhead
  rw [done, hsteps]
  match ended with
  | none => simp [firstSteps]
  | some 0 => exact absurd rfl h
  | some (n + 1) => simp [firstSteps]

theorem done_zero (b : Box υ) (v : υ) : done b (.update v (some 0)) = [] := by
  simp [done, firstSteps]

/-- A rollback is due: the recorded slot is there, and is not the current one. -/
def Armed (b : Box υ) : Prop :=
  ∃ w, b.previous = some w ∧ b.slots w ≠ .absent ∧ b.current ≠ some w

theorem rollback_armed (hprevious : b.previous = some w) (hslot : b.slots w ≠ .absent)
    (hcurrent : b.current ≠ some w) :
    rollback b = [.stamp (some b.current), .link w] := by
  simp [rollback, hprevious, hslot, hcurrent]

theorem rollback_of_not_armed (h : ¬Armed b) : rollback b = [] := by
  unfold rollback
  split
  · rfl
  · rename_i w hprevious
    split
    · rfl
    · rename_i hslot
      split
      · rfl
      · rename_i hcurrent
        exact absurd ⟨w, hprevious, hslot, hcurrent⟩ h

end Wifucked.Ota
