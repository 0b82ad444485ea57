import Wifucked.Atomics.Persisting
import Wifucked.Daemon.Modes

/-!
# Whether a user's choice sticks

Runs of the daemon's actions in any order, on any threads, where `persist` goes
one step at a time: it takes its snapshot under the lock and writes it after
that. Besides the user, three actions can bring a connection back into free use:
the outcome of a pipeline that obtained a lease, a sweep that finds a connection
the registry no longer knows, and a restart from a file that is older than the
choice.
-/

namespace Wifucked

open Persisting (Snapshot Point)

def Persisting.Point.Last {K : Type} (persist : Bool) : Point K → Prop
  | .persisting => persist = false
  | .replacing _ => True
  | _ => False

def Persisting.Point.MayFail {K : Type} : Point K → Prop
  | .opening _ => True
  | .writing _ _ => True
  | .replacing _ => True
  | _ => False

/-- `choice` is the connection that the call takes out of free use, if it does. -/
structure Saver (K : Type) where
  point : Point K
  choice : Option String

/-- The last three fields are a record of the run that no step reads: how many
snapshots were taken; the connections whose mode was last written by a lease; and
of each one the user took out of free use, how many snapshots there were when
that call returned. -/
structure Chosen (τ K : Type) where
  daemon : Daemon K
  directory : Directory (Snapshot K)
  calls : τ → Saver K
  taken : ℕ
  leased : String → Bool
  returned : String → Option ℕ

namespace Chosen

inductive Turn (τ K : Type) where
  /-- An action of the loop, or a user's call, on a thread that has none. -/
  | call (t : τ) (e : Event K)
  /-- The next step of a call, with what its clocks say. -/
  | go (t : τ) (r : Reading K)
  /-- The next step of a call is an `OSError`, which is logged. -/
  | fail (t : τ) (left : Option ℕ)
  | restart (r : Reading K)

variable {τ K : Type}

def Sticks (s : Chosen τ K) : Prop :=
  ∀ id, s.returned id ≠ none → s.daemon.registry.modeOf id ≠ some .normal

def saved (s : Chosen τ K) : Option (Snapshot K) := s.directory.read.bind (·.whole)

variable [DecidableEq τ]

/-- The call on `t` returns; where it took a connection out, that stands from here on. -/
def finish (s : Chosen τ K) (t : τ) : Chosen τ K :=
  { s with
    calls := Function.update s.calls t ⟨.idle, none⟩
    returned :=
      match (s.calls t).choice with
      | none => s.returned
      | some id => Function.update s.returned id (some s.taken) }

/-- The user takes the connection back into free use. -/
def release (s : Chosen τ K) (id : String) : Chosen τ K :=
  { s with
    calls := fun t =>
      if (s.calls t).choice = some id then ⟨(s.calls t).point, none⟩ else s.calls t
    returned := Function.update s.returned id none }

def enter (s : Chosen τ K) (t : τ) (point : Point K) : Chosen τ K :=
  { s with calls := Function.update s.calls t ⟨point, none⟩ }

/-- A call on `t` gives a connection a mode, and goes on to `persist`. -/
def write (s : Chosen τ K) (t : τ) (id : String) (registry : Registry K) (choice : Option String)
    (lease : Bool) : Chosen τ K :=
  { s with
    daemon := { s.daemon with registry }
    calls := Function.update s.calls t ⟨.persisting, choice⟩
    leased := Function.update s.leased id lease }

/-- `set_mode` up to its `persist`. A call for a connection that is not known returns. -/
def setMode (s : Chosen τ K) (t : τ) (id : String) (mode : Mode) : Chosen τ K :=
  match s.daemon.registry.get? id, mode with
  | none, .normal => (s.release id).enter t .idle
  | none, _ => { s with returned := Function.update s.returned id (some s.taken) }.enter t .idle
  | some _, .normal =>
    (s.release id).write t id (s.daemon.registry.setMode id .normal) none false
  | some _, mode => s.write t id (s.daemon.registry.setMode id mode) (some id) false

def applyOutcome (s : Chosen τ K) (t : τ) : Chosen τ K :=
  match s.daemon.outcomes with
  | [] => s
  | o :: outcomes =>
    match s.daemon.registry.get? o.atomicId with
    | none => { s with daemon := { s.daemon with outcomes } }
    | some _ =>
      { s with daemon := { s.daemon with outcomes } }.write t o.atomicId
        (s.daemon.registry.setRoleAndMode o.atomicId o.role o.mode) none (o.mode = Mode.normal)

section

variable [Field K] [LinearOrder K]

/-- The calls end where they are, and what is on disk is loaded. -/
def restart (s : Chosen τ K) (r : Reading K) : Chosen τ K :=
  { s with
    daemon := Daemon.init s.daemon.config (s.saved.map (·.file)) r
    calls := fun _ => ⟨.idle, none⟩
    leased := fun _ => false }

variable [FloorRing K] [HalfPow K]

def act (s : Chosen τ K) (t : τ) (e : Event K) : Chosen τ K :=
  match e.action with
  | .persist => s.enter t .persisting
  | .setMode id mode => s.enter t (.setting id mode)
  | .applyOutcome => s.applyOutcome t
  | .restart => s.restart e.reading
  | _ => { s with daemon := s.daemon.step e }

def call (s : Chosen τ K) (t : τ) (e : Event K) : Chosen τ K :=
  match (s.calls t).point with
  | .idle => s.act t e
  | _ => s

end

section

variable [Ring K] [LinearOrder K] (size : StateFile K → ℕ)

def goOn (s : Chosen τ K) (t : τ) (point : Point K) : Chosen τ K :=
  { s with calls := Function.update s.calls t ⟨point, (s.calls t).choice⟩ }

/-- A rename that finds no temporary file is an `OSError` as well. -/
def go (s : Chosen τ K) (t : τ) (r : Reading K) : Chosen τ K :=
  match (s.calls t).point with
  | .idle => s
  | .setting id mode => s.setMode t id mode
  | .persisting =>
    if s.daemon.config.persist then
      let snapshot := ⟨s.taken + 1, s.daemon.registry.persist r.now r.wall⟩
      { s with taken := s.taken + 1 }.goOn t (.opening snapshot)
    else s.finish t
  | .opening snapshot =>
    { s with directory := s.directory.openTmp.1 }.goOn t (.writing snapshot s.directory.openTmp.2)
  | .writing snapshot inode =>
    let directory := s.directory.write (fun snapshot => size snapshot.file) inode snapshot
    { s with directory }.goOn t (.replacing snapshot)
  | .replacing _ => { s with directory := s.directory.rename.getD s.directory }.finish t

def fail (s : Chosen τ K) (t : τ) (left : Option ℕ) : Chosen τ K :=
  match (s.calls t).point with
  | .opening _ => s.finish t
  | .writing _ inode => { s with directory := s.directory.spoil inode left }.finish t
  | .replacing _ => s.finish t
  | _ => s

end

section

variable [Field K] [LinearOrder K] [FloorRing K] [HalfPow K] (size : StateFile K → ℕ)

def step (s : Chosen τ K) : Turn τ K → Chosen τ K
  | .call t e => s.call t e
  | .go t r => s.go size t r
  | .fail t left => s.fail t left
  | .restart r => s.restart r

end

/-- What the files hold at the start is from before any choice. -/
def found (c : Contents (StateFile K)) : Contents (Snapshot K) :=
  ⟨c.length, c.whole.map fun file => ⟨0, file⟩⟩

def init [Field K] [LinearOrder K] (config : Config K) (file left : Option (Contents (StateFile K)))
    (r : Reading K) : Chosen τ K where
  daemon := Daemon.init config (file.bind (·.whole)) r
  directory := .start (left.map found) (file.map found)
  calls := fun _ => ⟨.idle, none⟩
  taken := 0
  leased := fun _ => false
  returned := fun _ => none

-- ---------------------------------------------------------------------------
-- What brings a connection back
-- ---------------------------------------------------------------------------

/-- A call on `t` that takes a connection out of free use was overtaken by a lease. -/
def Overtaken (s : Chosen τ K) (t : τ) : Prop :=
  ∃ id, (s.calls t).choice = some id ∧ s.leased id = true

/-- The state file is a snapshot from before a choice returned, and undoes it. -/
def LoadsOlder (s : Chosen τ K) : Prop :=
  s.daemon.config.persist = true ∧ ∃ snapshot, s.saved = some snapshot ∧
    ∃ id n, s.returned id = some n ∧ snapshot.number ≤ n ∧
      snapshot.file.modeOf id = some .normal

/-- Of a connection that the user took out of free use a lease is delivered, or it is
found while the registry has forgotten it. -/
def Undoes (s : Chosen τ K) (e : Event K) : Prop :=
  match e.action with
  | .restart => s.LoadsOlder
  | .applyOutcome => ∃ o, s.daemon.outcomes.head? = some o ∧ o.mode = .normal ∧
      s.returned o.atomicId ≠ none ∧ s.daemon.registry.modeOf o.atomicId ≠ none
  | .discover seen => ∃ id, s.returned id ≠ none ∧ s.daemon.registry.modeOf id = none ∧
      Registry.freshMode seen id = some .normal
  | _ => False

def Overrules (s : Chosen τ K) : Turn τ K → Prop
  | .call t e => (s.calls t).point = .idle ∧ s.Undoes e
  | .go t _ => (s.calls t).point.Last s.daemon.config.persist ∧ s.Overtaken t
  | .fail t _ => (s.calls t).point.MayFail ∧ s.Overtaken t
  | .restart _ => s.LoadsOlder

/-- The snapshot is the whole text of a file, or a call has it to write. -/
def InPlay (s : Chosen τ K) (snapshot : Snapshot K) : Prop :=
  (∃ i, (s.directory.contents i).whole = some snapshot) ∨
    ∃ t, (s.calls t).point.snapshot? = some snapshot

/-- The choices stick, no snapshot taken after a choice returned undoes it, and of a
call that is under way the record says whether a lease has overtaken it. -/
structure Kept (s : Chosen τ K) : Prop where
  sticks : s.Sticks
  numbered : ∀ snapshot, s.InPlay snapshot → snapshot.number ≤ s.taken
  later : ∀ id n, s.returned id = some n → ∀ snapshot, s.InPlay snapshot →
    n < snapshot.number → snapshot.file.modeOf id ≠ some .normal
  standing : ∀ t id, (s.calls t).choice = some id → ∃ mode,
    s.daemon.registry.modeOf id = some mode ∧ (mode = .normal ↔ s.leased id = true)

omit [DecidableEq τ] in
theorem Kept.of_inPlay {s s' : Chosen τ K} (h : s.Kept) (hsticks : s'.Sticks)
    (htaken : s'.taken = s.taken) (hplay : ∀ snapshot, s'.InPlay snapshot → s.InPlay snapshot)
    (hreturned : ∀ id n, s'.returned id = some n → s.returned id = some n ∨ n = s.taken)
    (hstanding : ∀ t id, (s'.calls t).choice = some id → ∃ mode,
      s'.daemon.registry.modeOf id = some mode ∧ (mode = .normal ↔ s'.leased id = true)) :
    s'.Kept where
  sticks := hsticks
  numbered := fun snapshot hs => htaken ▸ h.numbered snapshot (hplay snapshot hs)
  later := by
    intro id n hn snapshot hs hlt
    rcases hreturned id n hn with hold | rfl
    · exact h.later id n hold snapshot (hplay snapshot hs) hlt
    · exact absurd (h.numbered snapshot (hplay snapshot hs)) (not_le.mpr hlt)
  standing := hstanding

-- ---------------------------------------------------------------------------
-- A call writes a mode
-- ---------------------------------------------------------------------------

theorem inPlay_update {s s' : Chosen τ K} {t : τ} {saver : Saver K} {snapshot : Snapshot K}
    (h : s'.InPlay snapshot) (hd : s'.directory = s.directory)
    (hc : s'.calls = Function.update s.calls t saver) (hnone : saver.point.snapshot? = none) :
    s.InPlay snapshot := by
  rcases h with ⟨i, hi⟩ | ⟨u, hu⟩
  · exact .inl ⟨i, hd ▸ hi⟩
  · rw [hc] at hu
    by_cases hut : u = t
    · subst hut
      simp [hnone] at hu
    · exact .inr ⟨u, by simpa [hut] using hu⟩

theorem kept_enter {s : Chosen τ K} (h : s.Kept) {t : τ} {point : Point K}
    (hnone : point.snapshot? = none) : (s.enter t point).Kept := by
  refine h.of_inPlay h.sticks rfl (fun _ hs => inPlay_update hs rfl rfl hnone)
    (fun _ _ hn => .inl hn) fun u id hu => ?_
  by_cases hut : u = t
  · subst hut
    simp [enter] at hu
  · exact h.standing u id (by simpa [enter, hut] using hu)

omit [DecidableEq τ] in
theorem kept_release {s : Chosen τ K} (h : s.Kept) (id : String) :
    (s.release id).Kept ∧ ∀ t, ((s.release id).calls t).choice ≠ some id := by
  have hpoint : ∀ t, ((s.release id).calls t).point = (s.calls t).point := by
    intro t
    simp only [release]
    split <;> rfl
  have hreturned : ∀ j n, (s.release id).returned j = some n → s.returned j = some n := by
    intro j n hn
    simp only [release] at hn
    by_cases hj : j = id
    · subst hj
      simp at hn
    · rwa [Function.update_of_ne hj] at hn
  refine ⟨h.of_inPlay (fun j hj => ?_) rfl (fun snapshot hs => ?_) (fun j n hn => ?_)
    (fun t j hj => ?_), fun t ht => ?_⟩
  · obtain ⟨n, hn⟩ := Option.ne_none_iff_exists'.mp hj
    exact h.sticks j (by simp [hreturned j n hn])
  · rcases hs with hs | ⟨u, hu⟩
    · exact .inl hs
    · exact .inr ⟨u, hpoint u ▸ hu⟩
  · exact .inl (hreturned j n hn)
  · refine h.standing t j ?_
    simp only [release] at hj
    split at hj
    · cases hj
    · exact hj
  · simp only [release] at ht
    split at ht
    · cases ht
    · rename_i hne
      exact hne ht

theorem kept_write {s : Chosen τ K} (h : s.Kept) {t : τ} {id : String} {mode : Mode}
    {registry : Registry K} {choice : Option String} {lease : Bool}
    (hmode : ∀ j, registry.modeOf j =
      if j = id then some mode else s.daemon.registry.modeOf j)
    (hchoice : ∀ j, choice = some j → j = id)
    (hlease : ((∃ u, (s.calls u).choice = some id) ∨ choice = some id) →
      (mode = .normal ↔ lease = true))
    (hsticks : s.returned id ≠ none → mode ≠ .normal) :
    (s.write t id registry choice lease).Kept := by
  have hsticks : (s.write t id registry choice lease).Sticks := by
    intro j hj hm
    have hm : registry.modeOf j = some .normal := hm
    rw [hmode] at hm
    split at hm
    · rename_i hji
      exact hsticks (hji ▸ hj) (Option.some.inj hm)
    · exact h.sticks j hj hm
  refine h.of_inPlay hsticks rfl (fun _ hs => inPlay_update hs rfl rfl rfl)
    (fun _ _ hn => .inl hn) (fun u j hu => ?_)
  have hown : (∃ u, (s.calls u).choice = some j) ∨ choice = some j := by
    by_cases hut : u = t
    · subst hut
      exact .inr (by simpa [write] using hu)
    · exact .inl ⟨u, by simpa [write, hut] using hu⟩
  by_cases hji : j = id
  · subst hji
    exact ⟨mode, by simp [write, hmode], by simpa [write] using hlease hown⟩
  · obtain ⟨u, hu⟩ : ∃ u, (s.calls u).choice = some j := by
      rcases hown with hu | hc
      · exact hu
      · exact absurd (hchoice j hc) hji
    obtain ⟨m, hm, hleased⟩ := h.standing u j hu
    exact ⟨m, by simpa [write, hmode, hji] using hm, by simpa [write, hji] using hleased⟩

omit [DecidableEq τ] in
theorem kept_unknown {s : Chosen τ K} (h : s.Kept) {id : String}
    (hg : s.daemon.registry.get? id = none) :
    ({ s with returned := Function.update s.returned id (some s.taken) } : Chosen τ K).Kept := by
  refine h.of_inPlay (fun j hj hm => ?_) rfl (fun _ hs => hs) (fun j n hn => ?_) h.standing
  · by_cases hji : j = id
    · subst hji
      simp [Registry.modeOf, hg] at hm
    · exact h.sticks j (by simpa [hji] using hj) hm
  · by_cases hji : j = id
    · subst hji
      exact .inr (by simpa using hn.symm)
    · exact .inl (by simpa [hji] using hn)

theorem kept_setMode {s : Chosen τ K} (h : s.Kept) (t : τ) (id : String) (mode : Mode) :
    (s.setMode t id mode).Kept := by
  have hmode : ∀ {a}, s.daemon.registry.get? id = some a → ∀ mode j,
      (s.daemon.registry.setMode id mode).modeOf j =
        if j = id then some mode else s.daemon.registry.modeOf j := by
    intro a hg mode j
    rw [Registry.modeOf_setMode]
    simp [Registry.modeOf, hg]
  obtain ⟨hrelease, hfree⟩ := kept_release h id
  unfold setMode
  cases hg : s.daemon.registry.get? id with
  | none =>
    cases mode with
    | normal => exact kept_enter hrelease rfl
    | backup | unused => exact kept_enter (kept_unknown h hg) rfl
  | some a =>
    cases mode with
    | normal =>
      refine kept_write hrelease (hmode hg .normal) (fun _ hj => by cases hj) (fun hu => ?_)
        fun hr => absurd (by simp [release]) hr
      rcases hu with ⟨u, hu⟩ | hu
      · exact absurd hu (hfree u)
      · cases hu
    | backup | unused =>
      exact kept_write h (hmode hg _) (fun j hj => (Option.some.inj hj).symm) (by simp) (by simp)

-- ---------------------------------------------------------------------------
-- The steps of a call
-- ---------------------------------------------------------------------------

theorem inPlay_finish {s : Chosen τ K} {t : τ} {snapshot : Snapshot K}
    (h : (s.finish t).InPlay snapshot) : s.InPlay snapshot :=
  inPlay_update h rfl rfl rfl

/-- A call that returns undoes its own choice just where a lease has overtaken it. -/
theorem sticks_finish {s : Chosen τ K} (h : s.Kept) (t : τ) :
    (s.finish t).Sticks ↔ ¬s.Overtaken t := by
  cases hc : (s.calls t).choice with
  | none =>
    have hkeep : (s.finish t).Sticks ↔ s.Sticks := by simp [Sticks, finish, hc]
    simpa [Overtaken, hc] using hkeep.mpr h.sticks
  | some id =>
    obtain ⟨mode, hm, hleased⟩ := h.standing t id hc
    simp only [Overtaken, hc, Option.some.injEq, exists_eq_left', ← hleased]
    simp only [Sticks, finish, hc]
    constructor
    · intro hs hnormal
      exact hs id (by simp) (hnormal ▸ hm)
    · intro hne j hj hmode
      by_cases hji : j = id
      · subst hji
        exact hne (Option.some.inj (hm.symm.trans hmode))
      · rw [Function.update_of_ne hji] at hj
        exact h.sticks j hj hmode

theorem kept_finish {s : Chosen τ K} (h : s.Kept) {t : τ} (hs : (s.finish t).Sticks) :
    (s.finish t).Kept := by
  refine h.of_inPlay hs rfl (fun _ => inPlay_finish) (fun id n hn => ?_) (fun u id hu => ?_)
  · simp only [finish] at hn
    cases hc : (s.calls t).choice with
    | none => exact .inl (by simpa [hc] using hn)
    | some j =>
      simp only [hc] at hn
      by_cases hj : id = j
      · subst hj
        rw [Function.update_self] at hn
        exact .inr (Option.some.inj hn).symm
      · rw [Function.update_of_ne hj] at hn
        exact .inl hn
  · by_cases hut : u = t
    · subst hut
      simp [finish] at hu
    · exact h.standing u id (by simpa [finish, hut] using hu)

omit [DecidableEq τ] in
/-- A directory with no other whole text in it than before, one in hand apart. -/
theorem kept_directory {s : Chosen τ K} (h : s.Kept) {directory : Directory (Snapshot K)}
    (hd : ∀ i snapshot, (directory.contents i).whole = some snapshot → s.InPlay snapshot) :
    ({ s with directory } : Chosen τ K).Kept := by
  refine h.of_inPlay h.sticks rfl (fun snapshot hs => ?_) (fun _ _ hn => .inl hn) h.standing
  rcases hs with ⟨i, hi⟩ | hs
  · exact hd i snapshot hi
  · exact .inr hs

theorem kept_goOn {s : Chosen τ K} (h : s.Kept) {t : τ} {point : Point K}
    (hs : ∀ snapshot, point.snapshot? = some snapshot → s.InPlay snapshot) :
    (s.goOn t point).Kept := by
  refine h.of_inPlay h.sticks rfl (fun snapshot hp => ?_) (fun _ _ hn => .inl hn)
    (fun u id hu => ?_)
  · rcases hp with hp | ⟨u, hu⟩
    · exact .inl hp
    · by_cases hut : u = t
      · subst hut
        exact hs snapshot (by simpa [goOn] using hu)
      · exact .inr ⟨u, by simpa [goOn, hut] using hu⟩
  · by_cases hut : u = t
    · subst hut
      exact h.standing u id (by simpa [goOn] using hu)
    · exact h.standing u id (by simpa [goOn, hut] using hu)

theorem whole_openTmp {directory : Directory (Snapshot K)} {i : ℕ} {snapshot : Snapshot K}
    (h : (directory.openTmp.1.contents i).whole = some snapshot) :
    (directory.contents i).whole = some snapshot := by
  simp only [Directory.openTmp] at h
  by_cases hi : i = directory.tmp.getD directory.next
  · subst hi
    simp at h
  · rwa [Function.update_of_ne hi] at h

theorem whole_write {directory : Directory (Snapshot K)} {size : Snapshot K → ℕ} {i j : ℕ}
    {own snapshot : Snapshot K}
    (h : ((directory.write size j own).contents i).whole = some snapshot) :
    (directory.contents i).whole = some snapshot ∨ own = snapshot := by
  simp only [Directory.write] at h
  by_cases hi : i = j
  · subst hi
    rw [Function.update_self] at h
    split at h
    · exact .inr (Option.some.inj h)
    · cases h
  · rw [Function.update_of_ne hi] at h
    exact .inl h

theorem whole_spoil {directory : Directory (Snapshot K)} {i j : ℕ} {left : Option ℕ}
    {snapshot : Snapshot K} (h : ((directory.spoil j left).contents i).whole = some snapshot) :
    (directory.contents i).whole = some snapshot := by
  cases left with
  | none => exact h
  | some n =>
    simp only [Directory.spoil] at h
    by_cases hi : i = j
    · subst hi
      simp at h
    · rwa [Function.update_of_ne hi] at h

theorem contents_rename (directory : Directory (Snapshot K)) :
    (directory.rename.getD directory).contents = directory.contents := by
  unfold Directory.rename
  cases directory.tmp <;> rfl

theorem kept_take [Ring K] [LinearOrder K] {s : Chosen τ K} (h : s.Kept) (t : τ) (r : Reading K) :
    ({ s with taken := s.taken + 1 }.goOn t
      (.opening ⟨s.taken + 1, s.daemon.registry.persist r.now r.wall⟩)).Kept := by
  have hplay : ∀ snapshot, ({ s with taken := s.taken + 1 }.goOn t
      (.opening ⟨s.taken + 1, s.daemon.registry.persist r.now r.wall⟩)).InPlay snapshot →
      s.InPlay snapshot ∨ snapshot = ⟨s.taken + 1, s.daemon.registry.persist r.now r.wall⟩ := by
    rintro snapshot (hp | ⟨u, hu⟩)
    · exact .inl (.inl hp)
    · by_cases hut : u = t
      · subst hut
        simp only [goOn, Function.update_self, Point.snapshot?, Option.some.injEq] at hu
        exact .inr hu.symm
      · exact .inl (.inr ⟨u, by simpa [goOn, hut] using hu⟩)
  refine ⟨h.sticks, fun snapshot hs => ?_, fun id n hn snapshot hs hlt => ?_, fun u id hu => ?_⟩
  · rcases hplay snapshot hs with hs | rfl
    · exact (h.numbered snapshot hs).trans (Nat.le_succ _)
    · exact le_rfl
  · rcases hplay snapshot hs with hs | rfl
    · exact h.later id n hn snapshot hs hlt
    · intro hnormal
      exact h.sticks id (by simp [show s.returned id = some n from hn])
        (Registry.modeOf_of_modeOf_persist hnormal)
  · by_cases hut : u = t
    · subst hut
      exact h.standing u id (by simpa [goOn] using hu)
    · exact h.standing u id (by simpa [goOn, hut] using hu)

section

variable [Ring K] [LinearOrder K] (size : StateFile K → ℕ)

theorem sticks_go {s : Chosen τ K} (h : s.Kept) (t : τ) (r : Reading K) :
    (s.go size t r).Sticks ↔ ¬s.Overrules (.go t r) := by
  simp only [Overrules, go]
  cases hp : (s.calls t).point with
  | idle | opening | writing => exact iff_of_true h.sticks fun hlast => hlast.1
  | setting id mode => exact iff_of_true (kept_setMode h t id mode).sticks fun hlast => hlast.1
  | persisting =>
    cases hc : s.daemon.config.persist with
    | true => exact iff_of_true h.sticks fun hlast => by cases hlast.1
    | false => exact (sticks_finish h t).trans (by simp [Point.Last])
  | replacing snapshot => exact (sticks_finish h t).trans (by simp [Point.Last])

theorem kept_go {s : Chosen τ K} (h : s.Kept) {t : τ} {r : Reading K}
    (hs : (s.go size t r).Sticks) : (s.go size t r).Kept := by
  revert hs
  unfold go
  have hown : ∀ snapshot, (s.calls t).point.snapshot? = some snapshot → s.InPlay snapshot :=
    fun snapshot hs => .inr ⟨t, hs⟩
  cases hp : (s.calls t).point with
  | idle => exact fun _ => h
  | setting id mode => exact fun _ => kept_setMode h t id mode
  | persisting =>
    dsimp only
    split
    · exact fun _ => kept_take h t r
    · exact kept_finish h
  | opening snapshot =>
    intro _
    rw [hp] at hown
    have hopen := kept_directory h fun i snapshot hi => .inl ⟨i, whole_openTmp hi⟩
    exact kept_goOn hopen fun snapshot hs => .inr ⟨t, by rw [hp]; exact hs⟩
  | writing snapshot inode =>
    intro _
    rw [hp] at hown
    refine kept_goOn (kept_directory h fun i other hi => ?_)
      fun snapshot hs => .inr ⟨t, by rw [hp]; exact hs⟩
    rcases whole_write hi with hi | rfl
    · exact .inl ⟨i, hi⟩
    · exact hown snapshot rfl
  | replacing snapshot =>
    refine kept_finish (kept_directory h fun i other hi => ?_)
    rw [contents_rename] at hi
    exact .inl ⟨i, hi⟩

end

theorem sticks_fail {s : Chosen τ K} (h : s.Kept) (t : τ) (left : Option ℕ) :
    (s.fail t left).Sticks ↔ ¬s.Overrules (.fail t left) := by
  simp only [Overrules, fail]
  cases hp : (s.calls t).point with
  | idle | setting | persisting => exact iff_of_true h.sticks fun hfail => hfail.1
  | opening | writing | replacing => exact (sticks_finish h t).trans (by simp [Point.MayFail])

theorem kept_fail {s : Chosen τ K} (h : s.Kept) {t : τ} {left : Option ℕ}
    (hs : (s.fail t left).Sticks) : (s.fail t left).Kept := by
  revert hs
  unfold fail
  cases hp : (s.calls t).point with
  | idle | setting | persisting => exact fun _ => h
  | opening snapshot => exact kept_finish h
  | writing snapshot inode =>
    exact kept_finish (kept_directory h fun i other hi => .inl ⟨i, whole_spoil hi⟩)
  | replacing snapshot => exact kept_finish h

-- ---------------------------------------------------------------------------
-- Calls and actions
-- ---------------------------------------------------------------------------

theorem applyOutcome_cases (s : Chosen τ K) (t : τ) :
    (∃ o outcomes, s.daemon.outcomes = o :: outcomes ∧
      s.daemon.registry.modeOf o.atomicId ≠ none ∧
      s.applyOutcome t = { s with daemon := { s.daemon with outcomes } }.write t o.atomicId
        (s.daemon.registry.setRoleAndMode o.atomicId o.role o.mode) none
        (o.mode = Mode.normal)) ∨
    (∀ o, s.daemon.outcomes.head? = some o → s.daemon.registry.modeOf o.atomicId = none) ∧
      ∃ outcomes, s.applyOutcome t = { s with daemon := { s.daemon with outcomes } } := by
  unfold applyOutcome
  cases ho : s.daemon.outcomes with
  | nil => exact .inr ⟨by simp, s.daemon.outcomes, rfl⟩
  | cons o outcomes =>
    dsimp only
    cases hg : s.daemon.registry.get? o.atomicId with
    | none => exact .inr ⟨by simp [Registry.modeOf, hg], outcomes, rfl⟩
    | some a => exact .inl ⟨o, outcomes, rfl, by simp [Registry.modeOf, hg], rfl⟩

theorem sticks_applyOutcome {s : Chosen τ K} (h : s.Kept) (t : τ) :
    ((s.applyOutcome t).Sticks ↔ ¬∃ o, s.daemon.outcomes.head? = some o ∧ o.mode = .normal ∧
      s.returned o.atomicId ≠ none ∧ s.daemon.registry.modeOf o.atomicId ≠ none) ∧
    ((s.applyOutcome t).Sticks → (s.applyOutcome t).Kept) := by
  rcases s.applyOutcome_cases t with ⟨o, outcomes, ho, hknown, hs⟩ | ⟨hunknown, outcomes, hs⟩
  · have hmode : ∀ j, (s.daemon.registry.setRoleAndMode o.atomicId o.role o.mode).modeOf j =
        if j = o.atomicId then some o.mode else s.daemon.registry.modeOf j := by
      intro j
      obtain ⟨m, hm⟩ := Option.ne_none_iff_exists'.mp hknown
      simp [Registry.modeOf_setRoleAndMode, hm]
    have hkept : (s.returned o.atomicId ≠ none → o.mode ≠ .normal) → (s.applyOutcome t).Kept := by
      intro hfree
      have hpop : ({ s with daemon := { s.daemon with outcomes } } : Chosen τ K).Kept :=
        ⟨h.sticks, h.numbered, h.later, h.standing⟩
      rw [hs]
      exact kept_write hpop hmode (fun _ hj => by cases hj) (fun _ => by simp) hfree
    have hfree : (s.applyOutcome t).Sticks → s.returned o.atomicId ≠ none → o.mode ≠ .normal := by
      intro hsticks hr hn
      rw [hs] at hsticks
      exact hsticks o.atomicId hr (by simpa [write, hmode] using hn)
    refine ⟨⟨?_, fun hnone => ?_⟩, fun hsticks => hkept (hfree hsticks)⟩
    · rintro hsticks ⟨o', ho', hn, hr, -⟩
      rw [ho] at ho'
      cases ho'
      exact hfree hsticks hr hn
    · exact (hkept fun hr hn => hnone ⟨o, by simp [ho], hn, hr, hknown⟩).sticks
  · have hkept : (s.applyOutcome t).Kept := by
      rw [hs]
      exact ⟨h.sticks, h.numbered, h.later, h.standing⟩
    refine ⟨iff_of_true hkept.sticks ?_, fun _ => hkept⟩
    rintro ⟨o, ho, -, -, hknown⟩
    exact hknown (hunknown o ho)

section

variable [Field K] [LinearOrder K]

omit [DecidableEq τ] in
theorem sticks_restart {s : Chosen τ K} (h : s.Kept) (r : Reading K) :
    (s.restart r).Sticks ↔ ¬s.LoadsOlder := by
  have hmode : ∀ id, (s.restart r).daemon.registry.modeOf id =
      if s.daemon.config.persist then s.saved.bind fun snapshot => snapshot.file.modeOf id
      else none := by
    intro id
    simp only [restart, Daemon.init]
    split
    · cases s.saved with
      | none => simp [Registry.modeOf]
      | some snapshot => exact Registry.modeOf_load snapshot.file r.now r.wall id
    · simp [Registry.modeOf]
  have hplay : ∀ snapshot, s.saved = some snapshot → s.InPlay snapshot := by
    intro snapshot hs
    obtain ⟨c, hread, hc⟩ := Option.bind_eq_some_iff.mp hs
    obtain ⟨i, -, rfl⟩ := Option.map_eq_some_iff.mp hread
    exact .inl ⟨i, hc⟩
  constructor
  · rintro hsticks ⟨hc, snapshot, hs, id, n, hn, -, hnormal⟩
    have hr : (s.restart r).returned id = some n := hn
    exact hsticks id (by simp [hr]) (by rw [hmode]; simpa [hc, hs] using hnormal)
  · intro hnone id hr hm
    rw [hmode] at hm
    split at hm
    · rename_i hc
      obtain ⟨snapshot, hs, hm⟩ := Option.bind_eq_some_iff.mp hm
      obtain ⟨n, hn⟩ := Option.ne_none_iff_exists'.mp hr
      by_cases hle : snapshot.number ≤ n
      · exact hnone ⟨hc, snapshot, hs, id, n, hn, hle, hm⟩
      · exact h.later id n hn snapshot (hplay snapshot hs) (not_le.mp hle) hm
    · cases hm

omit [DecidableEq τ] in
theorem kept_restart {s : Chosen τ K} (h : s.Kept) {r : Reading K} (hs : (s.restart r).Sticks) :
    (s.restart r).Kept := by
  refine h.of_inPlay hs rfl (fun snapshot hp => ?_) (fun _ _ hn => .inl hn)
    (fun _ _ hu => by cases hu)
  rcases hp with hp | ⟨u, hu⟩
  · exact .inl hp
  · cases hu

end

section

variable [Field K] [LinearOrder K] [FloorRing K] [HalfPow K]

omit [DecidableEq τ] in
theorem sticks_own {s : Chosen τ K} (h : s.Kept) {e : Event K} (hr : e.action ≠ .restart)
    (hw : s.daemon.modeWrite e = none) :
    (({ s with daemon := s.daemon.step e } : Chosen τ K).Sticks ↔ ¬∃ id, s.returned id ≠ none ∧
      s.daemon.registry.modeOf id = none ∧ Daemon.sweptMode e id = some .normal) ∧
    (({ s with daemon := s.daemon.step e } : Chosen τ K).Sticks →
      ({ s with daemon := s.daemon.step e } : Chosen τ K).Kept) := by
  have hmode : ∀ id, (s.daemon.step e).registry.modeOf id =
      (s.daemon.registry.modeOf id).or (Daemon.sweptMode e id) := by
    intro id
    rw [Daemon.modeOf_step hr, hw]
    rfl
  refine ⟨⟨?_, fun hnone id hid hm => ?_⟩, fun hs => ?_⟩
  · rintro hs ⟨id, hid, hunknown, hm⟩
    exact hs id hid (by simp [hmode, hunknown, hm])
  · have hm : (s.daemon.step e).registry.modeOf id = some .normal := hm
    rw [hmode] at hm
    rcases Option.or_eq_some_iff.mp hm with hm | ⟨hunknown, hm⟩
    · exact h.sticks id hid hm
    · exact hnone ⟨id, hid, hunknown, hm⟩
  · refine h.of_inPlay hs rfl (fun _ hp => hp) (fun _ _ hn => .inl hn) (fun t id ht => ?_)
    obtain ⟨mode, hm, hleased⟩ := h.standing t id ht
    exact ⟨mode, by simp [hmode, hm], hleased⟩

omit [DecidableEq τ] in
theorem kept_own {s : Chosen τ K} (h : s.Kept) {e : Event K} (hr : e.action ≠ .restart)
    (hw : s.daemon.modeWrite e = none) (hswept : ∀ id, Daemon.sweptMode e id = none) :
    ({ s with daemon := s.daemon.step e } : Chosen τ K).Kept := by
  obtain ⟨hiff, hkept⟩ := sticks_own h hr hw
  exact hkept (hiff.mpr (by simp [hswept]))

theorem sticks_act {s : Chosen τ K} (h : s.Kept) (t : τ) (e : Event K) :
    ((s.act t e).Sticks ↔ ¬s.Undoes e) ∧ ((s.act t e).Sticks → (s.act t e).Kept) := by
  have hkeeps : ∀ {e}, (s.act t e).Kept → ¬s.Undoes e →
      ((s.act t e).Sticks ↔ ¬s.Undoes e) ∧ ((s.act t e).Sticks → (s.act t e).Kept) :=
    fun hkept hno => ⟨iff_of_true hkept.sticks hno, fun _ => hkept⟩
  obtain ⟨r, action⟩ := e
  cases action with
  | discover seen => exact sticks_own h (by simp) rfl
  | applyOutcome => exact sticks_applyOutcome h t
  | restart => exact ⟨sticks_restart h r, kept_restart h⟩
  | persist | setMode => exact hkeeps (kept_enter h rfl) id
  | consider | measure | decide | spend | fast =>
    exact hkeeps (kept_own h (by simp) rfl fun _ => rfl) id

omit [DecidableEq τ] [FloorRing K] [HalfPow K] in
theorem kept_init (config : Config K) (file left : Option (Contents (StateFile K)))
    (r : Reading K) : (init config file left r : Chosen τ K).Kept where
  sticks := fun id hid => absurd rfl hid
  numbered := by
    have hfound : ∀ (c : Option (Contents (StateFile K))) snapshot,
        ((c.map found).getD ⟨0, none⟩).whole = some snapshot → snapshot.number = 0 := by
      intro c snapshot hc
      cases c with
      | none => cases hc
      | some c =>
        obtain ⟨f, -, rfl⟩ := Option.map_eq_some_iff.mp hc
        rfl
    rintro snapshot (⟨i, hi⟩ | ⟨t, ht⟩)
    · simp only [init, Directory.start] at hi
      split at hi
      · exact (hfound file snapshot hi).le
      · exact (hfound left snapshot hi).le
    · cases ht
  later := fun id n hn => by cases hn
  standing := fun t id ht => by cases ht

theorem sticks_step {size : StateFile K → ℕ} {s : Chosen τ K} (h : s.Kept) (turn : Turn τ K) :
    ((s.step size turn).Sticks ↔ ¬s.Overrules turn) ∧
      ((s.step size turn).Sticks → (s.step size turn).Kept) := by
  cases turn with
  | call t e =>
    simp only [step, call, Overrules]
    cases hp : (s.calls t).point with
    | idle => simpa using sticks_act h t e
    | _ => exact ⟨iff_of_true h.sticks (by simp), fun _ => h⟩
  | go t r => exact ⟨sticks_go size h t r, kept_go size h⟩
  | fail t left => exact ⟨sticks_fail h t left, kept_fail h⟩
  | restart r => exact ⟨sticks_restart h r, kept_restart h⟩

/-- Every choice sticks, once its call has returned and until the user takes it back,
exactly when in the run no lease is delivered for a connection the user took out of
free use, no sweep finds one forgotten, no call returns overtaken by a lease and no
restart loads a snapshot that is older than the choice. -/
theorem choice_sticks_iff (size : StateFile K → ℕ) (config : Config K)
    (file left : Option (Contents (StateFile K))) (r : Reading K) (turns : List (Turn τ K)) :
    Runs.Along (step size) (fun s turn => (s.step size turn).Sticks) (init config file left r) turns
      ↔ Runs.Along (step size) (fun s turn => ¬s.Overrules turn) (init config file left r)
        turns := by
  exact Runs.along_iff (fun s turn h => (sticks_step h turn).2)
    (fun s turn h => (sticks_step h turn).1) (kept_init config file left r)

end

-- ---------------------------------------------------------------------------
-- Three choices undone
-- ---------------------------------------------------------------------------

/-- The loop's thread is `false` and the API's is `true`. -/
def onLoop (now : ℚ) (actions : List (Action ℚ)) : List (Turn Bool ℚ) :=
  (during now actions).map (.call false)

def asked (now : ℚ) (mode : Mode) : List (Turn Bool ℚ) :=
  .call true ⟨⟨now, now⟩, .setMode "usb:dock" mode⟩ :: List.replicate 5 (.go true ⟨now, now⟩)

def leasedAfter : List (Turn Bool ℚ) :=
  onLoop 0 [.discover [dock true], .consider fun _ => none] ++ asked 5 .backup ++
    onLoop 10 [.discover [dock true], .consider leases, .applyOutcome]

/-- A port that never had a carrier has no record in the file. -/
def forgotten : List (Turn Bool ℚ) :=
  onLoop 0 [.discover [dock false]] ++ asked 5 .unused ++ [.restart ⟨60, 60⟩] ++
    onLoop 60 [.discover [dock false]]

/-- The loop has its snapshot when the choice is made, and writes it after. -/
def overwritten : List (Turn Bool ℚ) :=
  onLoop 0 [.discover [dock true], .persist] ++ [.go false ⟨0, 0⟩] ++ asked 5 .unused ++
    List.replicate 3 (.go false ⟨5, 5⟩) ++ [.restart ⟨60, 60⟩]

def ending (turns : List (Turn Bool ℚ)) : Chosen Bool ℚ :=
  Runs.exec (step fun _ => 400) (init hotspot none none ⟨0, 0⟩) turns

theorem choice_undone :
    ¬(ending leasedAfter).Sticks ∧ ¬(ending forgotten).Sticks ∧ ¬(ending overwritten).Sticks := by
  have hundone : ∀ turns ∈ [leasedAfter, forgotten, overwritten],
      (ending turns).returned "usb:dock" ≠ none ∧
        (ending turns).daemon.registry.modeOf "usb:dock" = some .normal := by
    decide +kernel
  have hfails : ∀ turns ∈ [leasedAfter, forgotten, overwritten], ¬(ending turns).Sticks := by
    intro turns hturns hsticks
    obtain ⟨hreturned, hnormal⟩ := hundone turns hturns
    exact hsticks "usb:dock" hreturned hnormal
  exact ⟨hfails _ (by simp), hfails _ (by simp), hfails _ (by simp)⟩

end Chosen

end Wifucked
