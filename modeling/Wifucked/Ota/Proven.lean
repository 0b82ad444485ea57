import Wifucked.Ota.Slots

/-!
# Known-good slots

What the watchdog has marked healthy is remembered here of each unpacked slot. A
rollback lands on a slot that was marked as long as nothing unpacks into a slot
in use, and as long as what an update replaced had been marked by then.
-/

namespace Wifucked.Ota

variable {υ : Type u} [DecidableEq υ]

/-- The device, with what has been marked healthy since it was unpacked, and
whether what `previous` records was when it was recorded. -/
structure Device (υ : Type u) where
  box : Box υ
  marked : υ → Bool
  vouched : Bool

def Device.blank : Device υ := ⟨.blank, fun _ => false, false⟩

def markedAfter (d : Device υ) : Step υ → υ → Bool
  | .slot version _ => Function.update d.marked version false
  | .healthy true =>
    match d.box.current with
    | none => d.marked
    | some version => Function.update d.marked version true
  | _ => d.marked

def vouchedAfter (d : Device υ) : Step υ → Bool
  | .previous (some version) => d.marked version
  | _ => d.vouched

def Device.perform (d : Device υ) (st : Step υ) : Device υ :=
  ⟨d.box.perform st, markedAfter d st, vouchedAfter d st⟩

def Device.step (d : Device υ) (e : Event υ) : Device υ :=
  Runs.exec Device.perform d (done d.box e)

/-- No update changes a slot in use before it switches, and what a boot switches
to is all there and was found healthy. -/
def KnownGood (d : Device υ) : Event υ → Prop
  | .update version ended => ∀ w content, .slot w content ∈ done d.box (.update version ended) →
      d.box.current ≠ some w ∧ d.box.previous ≠ some w
  | .boot healthy ended => ∀ w, .link w ∈ done d.box (.boot healthy ended) →
      d.box.slots w = .whole ∧ d.marked w = true

/-- An update that gets to unpack is to a version that is not in use; where an
unhealthy boot gets to its switch with another version recorded than it runs,
that version had been marked when it was recorded. -/
def Prudent (d : Device υ) : Event υ → Prop
  | .update version ended =>
      ended ≠ some 0 → d.box.current ≠ some version ∧ d.box.previous ≠ some version
  | .boot healthy ended => healthy = some false → ended ≠ some 0 → ended ≠ some 1 →
      d.box.previous ≠ none → d.box.previous ≠ d.box.current → d.vouched = true

-- ---------------------------------------------------------------------------
-- Slots in use
-- ---------------------------------------------------------------------------

structure Sound (d : Device υ) : Prop where
  current : ∀ v, d.box.current = some v → d.box.slots v = .whole
  previous : ∀ v, d.box.previous = some v → d.box.slots v = .whole
  vouched : ∀ v, d.box.previous = some v → d.marked v = d.vouched
  reverted : ∀ v, d.box.previous = some v → d.box.current = some v → d.vouched = true

omit [DecidableEq υ] in
theorem sound_blank : Sound (Device.blank : Device υ) := by
  constructor <;> intro v h <;> cases h

/-- What keeps a device sound at one step of a script. -/
def Safe (d : Device υ) : Step υ → Prop
  | .slot v _ => d.box.current ≠ some v ∧ d.box.previous ≠ some v
  | .link v => d.box.slots v = .whole ∧ (d.box.previous = some v → d.vouched = true)
  | .previous (some v) => d.box.slots v = .whole ∧ d.box.current ≠ some v
  | _ => True

variable {d : Device υ} {v w : υ}

theorem sound_perform (hd : Sound d) (hst : Safe d st) : Sound (d.perform st) := by
  cases st with
  | slot w content =>
    obtain ⟨hcurrent, hprevious⟩ := hst
    have hne : ∀ v, d.box.current = some v ∨ d.box.previous = some v → v ≠ w := by
      rintro v (h | h) rfl
      · exact hcurrent h
      · exact hprevious h
    constructor
    · intro v h
      exact (Function.update_of_ne (hne v (.inl h)) _ _).trans (hd.current v h)
    · intro v h
      exact (Function.update_of_ne (hne v (.inr h)) _ _).trans (hd.previous v h)
    · intro v h
      exact (Function.update_of_ne (hne v (.inr h)) _ _).trans (hd.vouched v h)
    · exact hd.reverted
  | link w =>
    obtain ⟨hslot, hvouched⟩ := hst
    constructor
    · intro v h
      obtain rfl := Option.some.inj h
      exact hslot
    · exact hd.previous
    · exact hd.vouched
    · intro v hprevious h
      obtain rfl := Option.some.inj h
      exact hvouched hprevious
  | healthy present =>
    refine ⟨hd.current, hd.previous, ?_, hd.reverted⟩
    intro v hprevious
    have hv := hd.vouched v hprevious
    cases present with
    | false => exact hv
    | true =>
      cases hcurrent : d.box.current with
      | none => simpa [Device.perform, markedAfter, vouchedAfter, hcurrent] using hv
      | some c =>
        simp only [Device.perform, markedAfter, vouchedAfter, hcurrent]
        -- What runs is the recorded version only after a rollback to it.
        by_cases hvc : v = c
        · subst hvc
          simpa using (hd.reverted v hprevious hcurrent).symm
        · simpa [hvc] using hv
  | previous recorded =>
    cases recorded with
    | none =>
      constructor
      · exact hd.current
      all_goals
        intro v h
        cases h
    | some w =>
      obtain ⟨hslot, hcurrent⟩ := hst
      constructor
      · exact hd.current
      · intro v h
        obtain rfl := Option.some.inj h
        exact hslot
      · intro v h
        obtain rfl := Option.some.inj h
        rfl
      · intro v h hv
        obtain rfl := Option.some.inj h
        exact absurd hv hcurrent
  | version v => exact ⟨hd.current, hd.previous, hd.vouched, hd.reverted⟩
  | stamp tried => exact ⟨hd.current, hd.previous, hd.vouched, hd.reverted⟩

-- ---------------------------------------------------------------------------
-- The scripts
-- ---------------------------------------------------------------------------

theorem safe_unpack (hcurrent : d.box.current ≠ some v) (hprevious : d.box.previous ≠ some v) :
    Runs.Along Device.perform Safe d (unpack d.box v) := by
  unfold unpack
  split <;> simp [Safe, Device.perform, Box.perform, hcurrent, hprevious]

theorem safe_updateScript (hd : Sound d) (hcurrent : d.box.current ≠ some v)
    (hprevious : d.box.previous ≠ some v) :
    Runs.Along Device.perform Safe d (updateScript d.box v) := by
  refine Runs.along_append.mpr ⟨safe_unpack hcurrent hprevious, ?_⟩
  have hslots : (Runs.exec Device.perform d (unpack d.box v)).box.slots =
      Function.update d.box.slots v .whole := by
    unfold unpack
    split <;> simp [Device.perform, Box.perform]
  have hbox : (Runs.exec Device.perform d (unpack d.box v)).box.previous = d.box.previous := by
    unfold unpack
    split <;> rfl
  unfold record
  split
  · simp [Safe, Device.perform, Box.perform, hslots, hbox, hprevious]
  · rename_i c hc
    have hne : c ≠ v := fun h => hcurrent (h ▸ hc)
    simp [Safe, Device.perform, Box.perform, hslots, hbox, hprevious, hne, hne.symm,
      hd.current c hc]

theorem safe_rollback (hd : Sound d) {ended : Option ℕ}
    (hvouched : ended ≠ some 0 → ended ≠ some 1 →
      d.box.previous ≠ none → d.box.previous ≠ d.box.current → d.vouched = true) :
    Runs.Along Device.perform Safe d (firstSteps (rollback d.box) ended) := by
  by_cases harmed : Armed d.box
  · obtain ⟨w, hprevious, hslot, hcurrent⟩ := harmed
    have hne : d.box.previous ≠ d.box.current := fun h => hcurrent (h ▸ hprevious)
    rw [rollback_armed hprevious hslot hcurrent]
    match ended with
    | some 0 => simp [firstSteps]
    | some 1 => simp [firstSteps, Safe]
    | none =>
      have hv := hvouched (by simp) (by simp) (by simp [hprevious]) hne
      simp [firstSteps, Safe, Device.perform, Box.perform, vouchedAfter,
        hd.previous w hprevious, hv]
    | some (n + 2) =>
      have hv := hvouched (by simp) (by simp) (by simp [hprevious]) hne
      simp [firstSteps, Safe, Device.perform, Box.perform, vouchedAfter,
        hd.previous w hprevious, hv]
  · refine along_firstSteps ended ?_
    simp [rollback_of_not_armed harmed]

theorem link_mem_boot {ended : Option ℕ} : .link w ∈ firstSteps (rollback b) ended ↔
    ended ≠ some 0 ∧ ended ≠ some 1 ∧
      b.previous = some w ∧ b.slots w ≠ .absent ∧ b.current ≠ some w := by
  by_cases harmed : Armed b
  · obtain ⟨w', hprevious, hslot, hcurrent⟩ := harmed
    rw [rollback_armed hprevious hslot hcurrent]
    have hlink : .link w ∈ firstSteps [.stamp (some b.current), .link w'] ended ↔
        ended ≠ some 0 ∧ ended ≠ some 1 ∧ w = w' := by
      match ended with
      | none => simp [firstSteps]
      | some 0 => simp [firstSteps]
      | some 1 => simp [firstSteps]
      | some (n + 2) => simp [firstSteps]
    rw [hlink, hprevious]
    constructor
    · rintro ⟨hzero, hone, rfl⟩
      exact ⟨hzero, hone, rfl, hslot, hcurrent⟩
    · rintro ⟨hzero, hone, h, -, -⟩
      exact ⟨hzero, hone, (Option.some.inj h).symm⟩
  · rw [rollback_of_not_armed harmed]
    constructor
    · intro h
      cases mem_firstSteps h
    · rintro ⟨-, -, h⟩
      exact absurd ⟨w, h⟩ harmed

-- ---------------------------------------------------------------------------
-- Events
-- ---------------------------------------------------------------------------

theorem safe_done (hd : Sound d) (he : Prudent d e) :
    Runs.Along Device.perform Safe d (done d.box e) := by
  cases e with
  | update version ended =>
    by_cases hzero : ended = some 0
    · simp [hzero, done_zero]
    · obtain ⟨hcurrent, hprevious⟩ := he hzero
      exact along_firstSteps ended (safe_updateScript hd hcurrent hprevious)
  | boot healthy ended =>
    match healthy with
    | none => simp [done]
    | some true => exact along_firstSteps ended (by simp [watchdog, Safe])
    | some false => exact safe_rollback hd (he rfl)

theorem sound_step (hd : Sound d) (he : Prudent d e) : Sound (d.step e) :=
  Runs.exec_of_along (fun _ _ _ => sound_perform) (safe_done hd he) hd

theorem knownGood_iff_prudent (hd : Sound d) (e : Event υ) : KnownGood d e ↔ Prudent d e := by
  cases e with
  | update version ended =>
    constructor
    · intro h hzero
      exact h _ _ (torn_mem_done hzero)
    · intro h w content hmem
      have hzero : ended ≠ some 0 := by
        rintro rfl
        rw [done_zero] at hmem
        cases hmem
      obtain rfl := slot_mem_updateScript (mem_firstSteps hmem)
      exact h hzero
  | boot healthy ended =>
    match healthy with
    | none => simp [KnownGood, Prudent, done]
    | some true =>
      simp only [KnownGood, Prudent, Option.some.injEq, Bool.true_eq_false, false_implies, iff_true]
      intro w h
      have hmem := mem_firstSteps h
      simp [watchdog] at hmem
    | some false =>
      simp only [KnownGood, Prudent, done, watchdog, link_mem_boot, true_implies]
      constructor
      · intro h hzero hone hprevious hne
        obtain ⟨w, hw⟩ := Option.ne_none_iff_exists'.mp hprevious
        have hslot := hd.previous w hw
        have hcurrent : d.box.current ≠ some w := fun h => hne (hw.trans h.symm)
        rw [← hd.vouched w hw]
        exact (h w ⟨hzero, hone, hw, by simp [hslot], hcurrent⟩).2
      · rintro h w ⟨hzero, hone, hw, -, hcurrent⟩
        refine ⟨hd.previous w hw, ?_⟩
        rw [hd.vouched w hw]
        exact h hzero hone (by simp [hw]) fun h => hcurrent (h ▸ hw)

theorem knownGood_along_iff (es : List (Event υ)) :
    Runs.Along Device.step KnownGood .blank es ↔ Runs.Along Device.step Prudent .blank es :=
  Runs.along_iff (fun _ e hd h => sound_step hd ((knownGood_iff_prudent hd e).mp h))
    (fun _ e hd => knownGood_iff_prudent hd e) sound_blank

/-- Two updates with no boot between them, and a version installed over itself. -/
theorem unproven_restored :
    ¬Runs.Along Device.step KnownGood .blank
      [.update "1.0.0" none, .boot (some true) none, .update "1.1.0" none, .update "1.2.0" none,
        .boot (some false) none] ∧
    ¬Runs.Along Device.step KnownGood .blank
      [.update "1.0.0" none, .boot (some true) none, .update "1.0.0" none] := by
  constructor
  · intro h
    have hmarked := (h.2.2.2.2.1 "1.1.0" (by decide)).2
    exact absurd hmarked (by decide)
  · intro h
    have hcurrent := (h.2.2.1 "1.0.0" .whole (by decide)).1
    exact absurd hcurrent (by decide)

end Wifucked.Ota
