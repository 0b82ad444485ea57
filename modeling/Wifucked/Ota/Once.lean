import Wifucked.Ota.Slots

/-!
# One rollback an update

Scripts that run to their end. A rollback makes the current slot the recorded
one, which no boot records anew, and the comparison of the two keeps every later
boot from a second one. The next update to another version parts them.
-/

namespace Wifucked.Ota

variable {υ : Type u}

def Step.isLink : Step υ → Bool
  | .link _ => true
  | _ => false

variable [DecidableEq υ]

def Box.updated (b : Box υ) (version : υ) : Box υ := b.step (.update version none)

def Box.booted (b : Box υ) (healthy : Option Bool) : Box υ := b.step (.boot healthy none)

def rollsBack (b : Box υ) (healthy : Option Bool) : Bool :=
  (done b (.boot healthy none)).any Step.isLink

def rollbacks : Box υ → List (Option Bool) → ℕ
  | _, [] => 0
  | b, healthy :: boots => (rollsBack b healthy).toNat + rollbacks (b.booted healthy) boots

/-- What holds of the boots between an update and the next. -/
structure Guarded (b : Box υ) (boots : List (Option Bool)) : Prop where
  once : rollbacks b boots ≤ 1
  /-- From a rollback on, the current slot is the recorded one and stays. -/
  settled : ∀ before after, boots = before ++ after → rollbacks b before ≠ 0 →
    (Runs.exec Box.booted b before).current ≠ none ∧
      (Runs.exec Box.booted b before).current = (Runs.exec Box.booted b before).previous ∧
        (Runs.exec Box.booted b boots).current = (Runs.exec Box.booted b before).current
  rearmed : ∀ version, (Runs.exec Box.booted b boots).current ≠ some version → ∀ more,
    rollbacks ((Runs.exec Box.booted b boots).updated version) more =
      if some false ∈ more then 1 else 0

-- ---------------------------------------------------------------------------
-- One script
-- ---------------------------------------------------------------------------

variable {b : Box υ} {v w : υ} {healthy : Option Bool} {boots : List (Option Bool)}

theorem updated_eq (b : Box υ) (v : υ) : b.updated v =
    { b with
      slots := Function.update b.slots v .whole
      current := some v
      previous := b.current <|> b.previous
      version := some v
      healthy := false } := by
  unfold Box.updated Box.step done firstSteps updateScript unpack record
  cases b.current <;> by_cases hslot : b.slots v = .absent <;> simp [hslot, Box.perform]

theorem booted_not_armed (healthy : Option Bool) (h : ¬Armed b) :
    (b.booted healthy).slots = b.slots ∧ (b.booted healthy).current = b.current ∧
      (b.booted healthy).previous = b.previous := by
  match healthy with
  | none => exact ⟨rfl, rfl, rfl⟩
  | some true => exact ⟨rfl, rfl, rfl⟩
  | some false =>
    unfold Box.booted Box.step done firstSteps watchdog
    rw [rollback_of_not_armed h]
    exact ⟨rfl, rfl, rfl⟩

theorem booted_well (h : healthy ≠ some false) :
    (b.booted healthy).slots = b.slots ∧ (b.booted healthy).current = b.current ∧
      (b.booted healthy).previous = b.previous := by
  match healthy with
  | none => exact ⟨rfl, rfl, rfl⟩
  | some true => exact ⟨rfl, rfl, rfl⟩
  | some false => exact absurd rfl h

theorem booted_armed (hprevious : b.previous = some w) (hslot : b.slots w ≠ .absent)
    (hcurrent : b.current ≠ some w) :
    b.booted (some false) = { b with current := some w, stamp := some b.current } := by
  unfold Box.booted Box.step done firstSteps watchdog
  rw [rollback_armed hprevious hslot hcurrent]
  rfl

theorem rollsBack_iff : rollsBack b healthy = true ↔ healthy = some false ∧ Armed b := by
  match healthy with
  | none => simp [rollsBack, done]
  | some true => simp [rollsBack, done, firstSteps, watchdog, Step.isLink]
  | some false =>
    by_cases harmed : Armed b
    · obtain ⟨w, hprevious, hslot, hcurrent⟩ := harmed
      have harmed : Armed b := ⟨w, hprevious, hslot, hcurrent⟩
      simp [rollsBack, done, firstSteps, watchdog, rollback_armed hprevious hslot hcurrent,
        Step.isLink, harmed]
    · simp [rollsBack, done, firstSteps, watchdog, rollback_of_not_armed harmed, harmed]

-- ---------------------------------------------------------------------------
-- Armed and settled
-- ---------------------------------------------------------------------------

theorem not_armed_booted (h : ¬Armed b) : ¬Armed (b.booted healthy) := by
  obtain ⟨hslots, hcurrent, hprevious⟩ := booted_not_armed healthy h
  unfold Armed
  rw [hslots, hcurrent, hprevious]
  exact h

theorem rollbacks_not_armed (h : ¬Armed b) : rollbacks b boots = 0 := by
  induction boots generalizing b with
  | nil => rfl
  | cons healthy boots ih =>
    have hnot : rollsBack b healthy = false := by
      rw [← Bool.not_eq_true, rollsBack_iff]
      exact fun hr => h hr.2
    simp [rollbacks, hnot, ih (not_armed_booted h)]

/-- A rollback has been made: the recorded slot is the current one. -/
def Settled (b : Box υ) : Prop := b.current ≠ none ∧ b.current = b.previous

omit [DecidableEq υ] in
theorem Settled.not_armed (h : Settled b) : ¬Armed b := by
  rintro ⟨w, hprevious, -, hcurrent⟩
  exact hcurrent (h.2.trans hprevious)

theorem settled_exec (h : Settled b) :
    Settled (Runs.exec Box.booted b boots) ∧
      (Runs.exec Box.booted b boots).current = b.current := by
  refine Runs.exec_keeps (P := fun b' => Settled b' ∧ b'.current = b.current) ?_ ⟨h, rfl⟩
  rintro b' healthy - ⟨hb', hcurrent⟩
  obtain ⟨-, hc, hp⟩ := booted_not_armed healthy hb'.not_armed
  refine ⟨⟨?_, ?_⟩, hc.trans hcurrent⟩
  · rw [hc]
    exact hb'.1
  · rw [hc, hp]
    exact hb'.2

theorem settled_booted (h : Armed b) : Settled (b.booted (some false)) := by
  obtain ⟨w, hprevious, hslot, hcurrent⟩ := h
  rw [booted_armed hprevious hslot hcurrent]
  exact ⟨by simp, hprevious.symm⟩

theorem armed_booted (h : Armed b) (hh : healthy ≠ some false) : Armed (b.booted healthy) := by
  obtain ⟨hslots, hcurrent, hprevious⟩ := booted_well (b := b) hh
  unfold Armed
  rw [hslots, hcurrent, hprevious]
  exact h

/-- The first unhealthy boot rolls back, and no other. -/
theorem rollbacks_armed (h : Armed b) :
    rollbacks b boots = if some false ∈ boots then 1 else 0 := by
  induction boots generalizing b with
  | nil => rfl
  | cons healthy boots ih =>
    by_cases hh : healthy = some false
    · subst hh
      have hroll : rollsBack b (some false) = true := rollsBack_iff.mpr ⟨rfl, h⟩
      simp [rollbacks, hroll, rollbacks_not_armed (settled_booted h).not_armed]
    · have hroll : rollsBack b healthy = false := by
        rw [← Bool.not_eq_true, rollsBack_iff]
        exact fun hr => hh hr.1
      simp [rollbacks, hroll, ih (armed_booted h hh), Ne.symm hh]

theorem rollbacks_le_one : rollbacks b boots ≤ 1 := by
  by_cases harmed : Armed b
  · rw [rollbacks_armed harmed]
    split <;> simp
  · simp [rollbacks_not_armed harmed]

theorem settled_of_rollback (h : rollbacks b boots ≠ 0) :
    Settled (Runs.exec Box.booted b boots) := by
  induction boots generalizing b with
  | nil => exact absurd rfl h
  | cons healthy boots ih =>
    cases hroll : rollsBack b healthy with
    | false => exact ih (by simpa [rollbacks, hroll] using h)
    | true =>
      obtain ⟨rfl, harmed⟩ := rollsBack_iff.mp hroll
      exact (settled_exec (settled_booted harmed)).1

-- ---------------------------------------------------------------------------
-- From update to update
-- ---------------------------------------------------------------------------

def Held (b : Box υ) : Prop := ∃ v, b.current = some v ∧ b.slots v ≠ .absent

theorem held_updated (b : Box υ) (v : υ) : Held (b.updated v) := by
  rw [updated_eq]
  exact ⟨v, rfl, by simp⟩

theorem held_booted (h : Held b) : Held (b.booted healthy) := by
  by_cases hroll : healthy = some false ∧ Armed b
  · obtain ⟨rfl, w, hprevious, hslot, hcurrent⟩ := hroll
    rw [booted_armed hprevious hslot hcurrent]
    exact ⟨w, rfl, hslot⟩
  · have hsame : (b.booted healthy).slots = b.slots ∧ (b.booted healthy).current = b.current ∧
        (b.booted healthy).previous = b.previous := by
      by_cases hh : healthy = some false
      · exact booted_not_armed healthy fun harmed => hroll ⟨hh, harmed⟩
      · exact booted_well hh
    unfold Held
    rw [hsame.1, hsame.2.1]
    exact h

theorem held_exec (h : Held b) : Held (Runs.exec Box.booted b boots) :=
  Runs.exec_keeps (P := Held) (fun _ _ _ => held_booted) h

theorem armed_updated (h : Held b) (hv : b.current ≠ some v) : Armed (b.updated v) := by
  obtain ⟨c, hc, hslot⟩ := h
  have hne : c ≠ v := fun h => hv (h ▸ hc)
  rw [updated_eq]
  exact ⟨c, by simp [hc], by simpa [hne] using hslot, by simpa using hne.symm⟩

/-- Whatever came before an update, the boots after it are guarded. -/
theorem guarded_updated (b : Box υ) (v : υ) (boots : List (Option Bool)) :
    Guarded (b.updated v) boots := by
  constructor
  · exact rollbacks_le_one
  · rintro before after rfl hroll
    have hsettled := settled_of_rollback hroll
    refine ⟨hsettled.1, hsettled.2, ?_⟩
    rw [Runs.exec_append]
    exact (settled_exec hsettled).2
  · intro version hne more
    exact rollbacks_armed (armed_updated (held_exec (held_updated b v)) hne)

end Wifucked.Ota
