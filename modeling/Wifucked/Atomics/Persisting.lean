import Mathlib.Algebra.Field.Rat
import Mathlib.Algebra.Order.Ring.Rat
import Mathlib.Data.Fintype.Basic
import Wifucked.Atomics.Registry
import Wifucked.Lib.Replace
import Wifucked.Lib.Threads

/-!
# Persisting from two threads

`persist` takes its snapshot under the lock and writes it after that, without.
The loop thread calls it, and `set_mode` does on a thread of the API. All of
them write the same temporary file. `size` is the length of a snapshot's text.
-/

namespace Wifucked.Persisting

/-- A snapshot with its place in the order they were taken in. -/
structure Snapshot (K : Type) where
  number : ℕ
  file : StateFile K

inductive Point (K : Type) where
  | idle
  | setting (id : String) (mode : Mode)
  | persisting
  | opening (snapshot : Snapshot K)
  | writing (snapshot : Snapshot K) (inode : ℕ)
  | replacing (snapshot : Snapshot K)

/-- The last three fields are a record of the run that no step reads: all
snapshots, the number of the newest one renamed, and the mode last set for each
connection. -/
structure Shared (K : Type) where
  registry : Registry K
  directory : Directory (StateFile K)
  snapshots : List (StateFile K)
  landed : ℕ
  chosen : String → Option Mode

inductive Turn (K : Type) where
  | persist
  | setMode (id : String) (mode : Mode)
  | observe (now : K) (seen : List (Atomic K))
  /-- The next step of a call, with what its clocks say. -/
  | go (now wall : K)

variable {K : Type} [Ring K] [LinearOrder K] (size : StateFile K → ℕ)

/-- A rename that finds no temporary file is an `OSError`, which is logged. -/
def move (s : Shared K) : Point K → Turn K → Shared K × Point K
  | .idle, .persist => (s, .persisting)
  | .idle, .setMode id mode => (s, .setting id mode)
  | .idle, .observe now seen => ({ s with registry := s.registry.observe now seen }, .idle)
  | .setting id mode, .go _ _ =>
    match s.registry.get? id with
    | none => (s, .idle)
    | some _ =>
      ({ s with
          registry := s.registry.setMode id mode
          chosen := Function.update s.chosen id (some mode) }, .persisting)
  | .persisting, .go now wall =>
    let file := s.registry.persist now wall
    ({ s with snapshots := s.snapshots ++ [file] }, .opening ⟨s.snapshots.length + 1, file⟩)
  | .opening snapshot, .go _ _ =>
    ({ s with directory := s.directory.openTmp.1 }, .writing snapshot s.directory.openTmp.2)
  | .writing snapshot inode, .go _ _ =>
    ({ s with directory := s.directory.write size inode snapshot.file }, .replacing snapshot)
  | .replacing snapshot, .go _ _ =>
    match s.directory.rename with
    | none => (s, .idle)
    | some directory => ({ s with directory, landed := max s.landed snapshot.number }, .idle)
  | point, _ => (s, point)

variable {τ : Type}

abbrev State (τ K : Type) := Threads τ (Shared K) (Point K)

def contents (file : StateFile K) : Contents (StateFile K) := ⟨size file, some file⟩

/-- The state file was read back at the start, where there is one; something may be
left of a temporary one. -/
def init (registry : Registry K) (saved : Option (StateFile K))
    (left : Option (Contents (StateFile K))) : State τ K :=
  { shared := ⟨registry, .start left (saved.map (contents size)), [], 0, fun _ => none⟩
    own := fun _ => .idle }

variable [DecidableEq τ]

def step (s : State τ K) (turn : τ × Turn K) : State τ K :=
  Threads.step (fun _ s point turn => move size s point turn) s turn

/-- The state file is the one found at the start or a whole snapshot, and with no
call under way it says of each connection what was last set. One without a row is
unused. -/
structure Saved (before : Option (Contents (StateFile K))) (s : State τ K) : Prop where
  whole : s.shared.directory.read = before ∨ ∃ file ∈ s.shared.snapshots,
    s.shared.directory.read = some (contents size file)
  chosen : (∀ t, s.own t = .idle) → ∀ id mode, s.shared.chosen id = some mode →
    ∃ file, s.shared.directory.read = some (contents size file) ∧
      (file.modeOf id).getD .unused = mode

namespace Point

def active : Point K → Prop
  | .writing _ _ => True
  | .replacing _ => True
  | _ => False

def snapshot? : Point K → Option (Snapshot K)
  | .opening snapshot => some snapshot
  | .writing snapshot _ => some snapshot
  | .replacing snapshot => some snapshot
  | _ => none

end Point

/-- A call opens the temporary file while no other has it, and before a later
snapshot is renamed. -/
def InOrder (s : State τ K) (turn : τ × Turn K) : Prop :=
  ∀ snapshot, s.own turn.1 = .opening snapshot →
    (∀ u, ¬ (s.own u).active) ∧ s.shared.landed < snapshot.number

instance (point : Point K) : Decidable point.active :=
  match point with
  | .writing _ _ => .isTrue trivial
  | .replacing _ => .isTrue trivial
  | .idle => .isFalse id
  | .setting _ _ => .isFalse id
  | .persisting => .isFalse id
  | .opening _ => .isFalse id

omit [Ring K] [LinearOrder K] [DecidableEq τ] in
theorem inOrder_opening {s : State τ K} {turn : τ × Turn K}
    (h : s.own turn.1 = .opening snapshot) :
    (∀ u, ¬ (s.own u).active) ∧ s.shared.landed < snapshot.number ↔ InOrder s turn := by
  constructor
  · intro hc other ho
    obtain rfl := Point.opening.inj (h.symm.trans ho)
    exact hc
  · intro hc
    exact hc snapshot h

instance [Fintype τ] (s : State τ K) (turn : τ × Turn K) : Decidable (InOrder s turn) :=
  match h : s.own turn.1 with
  | .opening _ => decidable_of_iff _ (inOrder_opening h)
  | .idle => .isTrue fun _ ho => by rw [h] at ho; cases ho
  | .setting _ _ => .isTrue fun _ ho => by rw [h] at ho; cases ho
  | .persisting => .isTrue fun _ ho => by rw [h] at ho; cases ho
  | .writing _ _ => .isTrue fun _ ho => by rw [h] at ho; cases ho
  | .replacing _ => .isTrue fun _ ho => by rw [h] at ho; cases ho

-- ---------------------------------------------------------------------------
-- What holds along such a run
-- ---------------------------------------------------------------------------

def Shared.Took (s : Shared K) (snapshot : Snapshot K) : Prop :=
  0 < snapshot.number ∧ s.snapshots[snapshot.number - 1]? = some snapshot.file

def Point.InHand (directory : Directory (StateFile K)) (landed : ℕ) : Point K → Prop
  | .writing snapshot inode =>
    directory.Holds inode ⟨0, none⟩ ∧ landed < snapshot.number
  | .replacing snapshot =>
    (∃ inode, directory.Holds inode (contents size snapshot.file)) ∧
      landed < snapshot.number
  | _ => True

def Shared.Shows (s : Shared K) (file : StateFile K) : Prop :=
  ∀ id mode, s.chosen id = some mode → (file.modeOf id).getD .unused = mode

structure Ordered (before : Option (Contents (StateFile K))) (s : State τ K) : Prop where
  apart : s.shared.directory.Apart
  known : ∀ id mode, s.shared.chosen id = some mode → s.shared.registry.modeOf id = some mode
  took : ∀ t snapshot, (s.own t).snapshot? = some snapshot → s.shared.Took snapshot
  waiting : ∀ n, 0 < n → n ≤ s.shared.snapshots.length → n ≤ s.shared.landed ∨
    ∃ t snapshot, (s.own t).snapshot? = some snapshot ∧ snapshot.number = n
  shows : (∀ t, s.own t ≠ .persisting) → (∀ id, s.shared.chosen id = none) ∨
    ∃ file, s.shared.snapshots.getLast? = some file ∧ s.shared.Shows file
  alone : ∀ t u, (s.own t).active → (s.own u).active → t = u
  inHand : ∀ t, (s.own t).InHand size s.shared.directory s.shared.landed
  read : s.shared.landed = 0 ∧ s.shared.directory.read = before ∨
    ∃ file, s.shared.Took ⟨s.shared.landed, file⟩ ∧
      s.shared.directory.read = some (contents size file)

omit [Ring K] [LinearOrder K] [DecidableEq τ] in
theorem Ordered.saved {s : State τ K} (h : Ordered size before s) : Saved size before s where
  whole := by
    obtain ⟨-, hr⟩ | ⟨file, htook, hr⟩ := h.read
    · exact .inl hr
    · exact .inr ⟨file, List.mem_of_getElem? htook.2, hr⟩
  chosen := by
    intro hidle id mode hmode
    have hshows : (∀ id, s.shared.chosen id = none) ∨
        ∃ file, s.shared.snapshots.getLast? = some file ∧ s.shared.Shows file := by
      refine h.shows fun t => ?_
      rw [hidle t]
      intro hp
      cases hp
    obtain hnone | ⟨file, hlast, hfile⟩ := hshows
    · rw [hnone id] at hmode
      cases hmode
    · have hpos : 0 < s.shared.snapshots.length := by
        rw [List.length_pos_iff]
        rintro hnil
        rw [hnil] at hlast
        cases hlast
      have hlanded : s.shared.snapshots.length ≤ s.shared.landed := by
        obtain hl | ⟨t, snapshot, hs, -⟩ := h.waiting _ hpos le_rfl
        · exact hl
        · rw [hidle t] at hs
          cases hs
      obtain ⟨hzero, -⟩ | ⟨landed, htook, hr⟩ := h.read
      · omega
      · have hbound := (List.getElem?_eq_some_iff.mp htook.2).1
        simp only at hbound
        have hsame : s.shared.landed - 1 = s.shared.snapshots.length - 1 := by omega
        have hget := htook.2
        simp only [hsame, ← List.getLast?_eq_getElem?, hlast] at hget
        obtain rfl := Option.some.inj hget
        exact ⟨file, hr, hfile id mode hmode⟩

/-- The obligations of a move of thread `t` that leaves `sh` and the thread at `point`. -/
structure Moved (before : Option (Contents (StateFile K))) (s : State τ K) (t : τ)
    (sh : Shared K) (point : Point K) : Prop where
  apart : sh.directory.Apart
  known : ∀ id mode, sh.chosen id = some mode → sh.registry.modeOf id = some mode
  took : ∀ snapshot, point.snapshot? = some snapshot → sh.Took snapshot
  tookOthers : ∀ snapshot, s.shared.Took snapshot → sh.Took snapshot
  waiting : ∀ n, 0 < n → n ≤ sh.snapshots.length → n ≤ sh.landed ∨
    (∃ snapshot, point.snapshot? = some snapshot ∧ snapshot.number = n) ∨
    ∃ v, v ≠ t ∧ ∃ snapshot, (s.own v).snapshot? = some snapshot ∧ snapshot.number = n
  shows : point ≠ .persisting → (∀ v, v ≠ t → s.own v ≠ .persisting) →
    (∀ id, sh.chosen id = none) ∨ ∃ file, sh.snapshots.getLast? = some file ∧ sh.Shows file
  alone : point.active → ∀ v, v ≠ t → ¬ (s.own v).active
  inHand : point.InHand size sh.directory sh.landed
  inHandOthers : ∀ v, v ≠ t → (s.own v).InHand size sh.directory sh.landed
  read : sh.landed = 0 ∧ sh.directory.read = before ∨
    ∃ file, sh.Took ⟨sh.landed, file⟩ ∧ sh.directory.read = some (contents size file)

variable {size}

theorem ordered_of_moved {s : State τ K} {turn : τ × Turn K} (h : Ordered size before s)
    (hm : Moved size before s turn.1 (move size s.shared (s.own turn.1) turn.2).1
      (move size s.shared (s.own turn.1) turn.2).2) : Ordered size before (step size s turn) := by
  obtain ⟨t, turn⟩ := turn
  have hself : (step size s (t, turn)).own t = (move size s.shared (s.own t) turn).2 :=
    Threads.step_own_self _ _ _ _
  have hother : ∀ v, v ≠ t → (step size s (t, turn)).own v = s.own v :=
    fun v hv => Threads.step_own_of_ne _ hv _
  constructor
  · exact hm.apart
  · exact hm.known
  · intro v snapshot hv
    by_cases hvt : v = t
    · rw [hvt, hself] at hv
      exact hm.took snapshot hv
    · rw [hother v hvt] at hv
      exact hm.tookOthers snapshot (h.took v snapshot hv)
  · intro n hn hle
    obtain hl | ⟨snapshot, hs, hnum⟩ | ⟨v, hv, snapshot, hs, hnum⟩ := hm.waiting n hn hle
    · exact .inl hl
    · exact .inr ⟨t, snapshot, by rw [hself]; exact hs, hnum⟩
    · exact .inr ⟨v, snapshot, by rw [hother v hv]; exact hs, hnum⟩
  · intro hp
    refine hm.shows ?_ ?_
    · have hpt := hp t
      rw [hself] at hpt
      exact hpt
    · intro v hv
      have hpv := hp v
      rw [hother v hv] at hpv
      exact hpv
  · intro v w hv hw
    by_cases hvt : v = t
    · by_cases hwt : w = t
      · rw [hvt, hwt]
      · rw [hvt, hself] at hv
        rw [hother w hwt] at hw
        exact absurd hw (hm.alone hv w hwt)
    · rw [hother v hvt] at hv
      by_cases hwt : w = t
      · rw [hwt, hself] at hw
        exact absurd hv (hm.alone hw v hvt)
      · rw [hother w hwt] at hw
        exact h.alone v w hv hw
  · intro v
    by_cases hv : v = t
    · rw [hv, hself]
      exact hm.inHand
    · rw [hother v hv]
      exact hm.inHandOthers v hv
  · exact hm.read

omit [Ring K] [LinearOrder K] [DecidableEq τ] in
theorem Ordered.waiting_same {s : State τ K} (h : Ordered size before s) (t : τ) {point : Point K}
    (hp : point.snapshot? = (s.own t).snapshot?) (n : ℕ) (hn : 0 < n)
    (hle : n ≤ s.shared.snapshots.length) : n ≤ s.shared.landed ∨
      (∃ snapshot, point.snapshot? = some snapshot ∧ snapshot.number = n) ∨
      ∃ v, v ≠ t ∧ ∃ snapshot, (s.own v).snapshot? = some snapshot ∧ snapshot.number = n := by
  obtain hl | ⟨v, snapshot, hs, hnum⟩ := h.waiting n hn hle
  · exact .inl hl
  · by_cases hv : v = t
    · rw [hv, ← hp] at hs
      exact .inr (.inl ⟨snapshot, hs, hnum⟩)
    · exact .inr (.inr ⟨v, hv, snapshot, hs, hnum⟩)

omit [Ring K] [LinearOrder K] [DecidableEq τ] in
theorem Ordered.shows_others {s : State τ K} (h : Ordered size before s)
    (ht : s.own t ≠ .persisting) (hothers : ∀ v, v ≠ t → s.own v ≠ .persisting) :
    (∀ id, s.shared.chosen id = none) ∨
      ∃ file, s.shared.snapshots.getLast? = some file ∧ s.shared.Shows file := by
  refine h.shows fun v => ?_
  by_cases hv : v = t
  · rw [hv]
    exact ht
  · exact hothers v hv

omit [Ring K] [LinearOrder K] [DecidableEq τ] in
theorem moved_quiet {s : State τ K} (h : Ordered size before s) {point : Point K}
    (hp : (s.own t).snapshot? = none) (hp' : point.snapshot? = none)
    (hknown : ∀ id mode, chosen id = some mode → registry.modeOf id = some mode)
    (hshows : point ≠ .persisting → (∀ v, v ≠ t → s.own v ≠ .persisting) →
      chosen = s.shared.chosen ∧ s.own t ≠ .persisting) :
    Moved size before s t { s.shared with registry, chosen } point := by
  have hact : ¬ point.active := by
    intro ha
    cases point with
    | writing snapshot inode => cases hp'
    | replacing snapshot => cases hp'
    | _ => exact ha
  constructor
  · exact h.apart
  · exact hknown
  · intro snapshot hs
    rw [hp'] at hs
    cases hs
  · exact fun _ htook => htook
  · exact fun n => h.waiting_same t (hp'.trans hp.symm) n
  · intro hne hothers
    obtain ⟨rfl, ht⟩ := hshows hne hothers
    exact h.shows_others ht hothers
  · exact fun ha => absurd ha hact
  · cases point with
    | writing snapshot inode => cases hp'
    | replacing snapshot => cases hp'
    | _ => trivial
  · exact fun v _ => h.inHand v
  · exact h.read

theorem getD_modeOf_persist {registry : Registry K} {id : String} (now wall : K)
    (h : registry.modeOf id = some mode) :
    ((registry.persist now wall).modeOf id).getD .unused = mode := by
  rw [Registry.modeOf_persist]
  obtain ⟨a, ha, rfl⟩ := Option.map_eq_some_iff.mp h
  rw [ha]
  by_cases hw : Registry.worthPersisting a = true
  · simp [Option.filter, hw]
  · have hunused : a.mode = .unused := by
      by_contra hm
      exact hw (by simp [Registry.worthPersisting, hm])
    simp [Option.filter, hw, hunused]

omit [Ring K] [LinearOrder K] [DecidableEq τ] in
theorem moved_self {s : State τ K} (h : Ordered size before s) (t : τ) :
    Moved size before s t s.shared (s.own t) where
  apart := h.apart
  known := h.known
  took := h.took t
  tookOthers := fun _ htook => htook
  waiting := fun n => h.waiting_same t rfl n
  shows := fun hne => h.shows_others hne
  alone := fun ha v hv hav => hv (h.alone v t hav ha)
  inHand := h.inHand t
  inHandOthers := fun v _ => h.inHand v
  read := h.read

omit [Ring K] [LinearOrder K] in
theorem Shared.Took.append {sh : Shared K} (h : sh.Took snapshot) (file : StateFile K) :
    Shared.Took { sh with snapshots := sh.snapshots ++ [file] } snapshot :=
  ⟨h.1, by rw [List.getElem?_append_left (List.getElem?_eq_some_iff.mp h.2).1]; exact h.2⟩

omit [DecidableEq τ] in
theorem moved_snapshot {s : State τ K} (h : Ordered size before s)
    (hp : s.own t = .persisting) (now wall : K) :
    Moved size before s t
      { s.shared with
        snapshots := s.shared.snapshots ++ [s.shared.registry.persist now wall] }
      (.opening ⟨s.shared.snapshots.length + 1, s.shared.registry.persist now wall⟩) where
  apart := h.apart
  known := h.known
  took := by
    intro snapshot hs
    obtain rfl := Option.some.inj hs
    exact ⟨Nat.succ_pos _, by simp⟩
  tookOthers := fun _ htook => htook.append _
  waiting := by
    intro n hn hle
    simp only [List.length_append, List.length_singleton] at hle
    by_cases hnew : n = s.shared.snapshots.length + 1
    · exact .inr (.inl ⟨_, rfl, hnew.symm⟩)
    · obtain hl | ⟨v, snapshot, hs, hnum⟩ := h.waiting n hn (by omega)
      · exact .inl hl
      · refine .inr (.inr ⟨v, ?_, snapshot, hs, hnum⟩)
        rintro rfl
        rw [hp] at hs
        cases hs
  shows := by
    intro _ _
    refine .inr ⟨s.shared.registry.persist now wall, by simp, ?_⟩
    intro id mode hmode
    exact getD_modeOf_persist now wall (h.known id mode hmode)
  alone := fun ha => ha.elim
  inHand := trivial
  inHandOthers := fun v _ => h.inHand v
  read := by
    obtain hzero | ⟨file, htook, hr⟩ := h.read
    · exact .inl hzero
    · exact .inr ⟨file, htook.append _, hr⟩

omit [Ring K] [LinearOrder K] [DecidableEq τ] in
theorem inHand_of_not_active {point : Point K} (h : ¬ point.active) :
    point.InHand size directory landed := by
  cases point with
  | writing snapshot inode => exact absurd trivial h
  | replacing snapshot => exact absurd trivial h
  | _ => trivial

omit [Ring K] [LinearOrder K] [DecidableEq τ] in
theorem moved_directory {s : State τ K} {directory : Directory (StateFile K)} {point : Point K}
    (h : Ordered size before s) (hsnapshot : point.snapshot? = (s.own t).snapshot?)
    (hpast : s.own t ≠ .persisting) (hidle : ∀ v, v ≠ t → ¬ (s.own v).active)
    (hapart : directory.Apart) (hhand : point.InHand size directory s.shared.landed)
    (hread : directory.read = s.shared.directory.read) :
    Moved size before s t { s.shared with directory } point := by
  constructor
  · exact hapart
  · exact h.known
  · intro other hs
    exact h.took t other (hsnapshot.symm.trans hs)
  · exact fun _ htook => htook
  · exact fun n => h.waiting_same t hsnapshot n
  · exact fun _ => h.shows_others hpast
  · exact fun _ => hidle
  · exact hhand
  · exact fun v hv => inHand_of_not_active (hidle v hv)
  · rw [hread]
    exact h.read

omit [Ring K] [LinearOrder K] [DecidableEq τ] in
theorem moved_open {s : State τ K} (h : Ordered size before s)
    (hp : s.own t = .opening snapshot) (hidle : ∀ u, ¬ (s.own u).active)
    (hlater : s.shared.landed < snapshot.number) :
    Moved size before s t { s.shared with directory := s.shared.directory.openTmp.1 }
      (.writing snapshot s.shared.directory.openTmp.2) := by
  obtain ⟨hapart, hholds, hread⟩ := h.apart.openTmp
  exact moved_directory h (by rw [hp]; rfl) (by simp [hp]) (fun v _ => hidle v) hapart
    ⟨hholds, hlater⟩ hread

omit [Ring K] [LinearOrder K] [DecidableEq τ] in
theorem Ordered.others_idle {s : State τ K} (h : Ordered size before s) (ht : (s.own t).active)
    (v : τ) (hv : v ≠ t) : ¬ (s.own v).active :=
  fun hav => hv (h.alone v t hav ht)

omit [Ring K] [LinearOrder K] [DecidableEq τ] in
theorem moved_write {s : State τ K} (h : Ordered size before s)
    (hp : s.own t = .writing snapshot inode) :
    Moved size before s t
      { s.shared with directory := s.shared.directory.write size inode snapshot.file }
      (.replacing snapshot) := by
  have hactive : (s.own t).active := by rw [hp]; trivial
  have hhand := h.inHand t
  rw [hp] at hhand
  obtain ⟨hholds, hlater⟩ := hhand
  obtain ⟨hwhole, hread⟩ := hholds.write size snapshot.file
  exact moved_directory h (by rw [hp]; rfl) (by simp [hp]) (h.others_idle hactive)
    (h.apart.write _ _) ⟨⟨inode, hwhole⟩, hlater⟩ hread

omit [Ring K] [LinearOrder K] [DecidableEq τ] in
theorem moved_replace {s : State τ K} (h : Ordered size before s)
    (hp : s.own t = .replacing snapshot) :
    ∃ directory, s.shared.directory.rename = some directory ∧
      Moved size before s t
        { s.shared with directory, landed := max s.shared.landed snapshot.number } .idle := by
  have hactive : (s.own t).active := by rw [hp]; trivial
  have hhand := h.inHand t
  rw [hp] at hhand
  obtain ⟨⟨inode, hholds⟩, hlater⟩ := hhand
  refine ⟨_, hholds.rename, ?_⟩
  rw [max_eq_right hlater.le]
  constructor
  · exact h.apart.rename hholds.tmp
  · exact h.known
  · intro other hs
    cases hs
  · exact fun _ htook => htook
  · intro n hn hle
    obtain hl | ⟨v, other, hs, hnum⟩ := h.waiting n hn hle
    · exact .inl (hl.trans hlater.le)
    · by_cases hv : v = t
      · rw [hv, hp] at hs
        obtain rfl := Option.some.inj hs
        exact .inl hnum.ge
      · exact .inr (.inr ⟨v, hv, other, hs, hnum⟩)
  · exact fun _ => h.shows_others (by simp [hp])
  · exact fun ha => ha.elim
  · trivial
  · exact fun v hv => inHand_of_not_active (h.others_idle hactive v hv)
  · exact .inr ⟨snapshot.file, h.took t snapshot (by rw [hp]; rfl), hholds.read_rename⟩

omit [DecidableEq τ] in
theorem moved {s : State τ K} (h : Ordered size before s) (turn : τ × Turn K)
    (horder : InOrder s turn) :
    Moved size before s turn.1 (move size s.shared (s.own turn.1) turn.2).1
      (move size s.shared (s.own turn.1) turn.2).2 := by
  obtain ⟨t, turn⟩ := turn
  have hself := moved_self h t
  cases hp : s.own t with
  | idle =>
    have hnone : (s.own t).snapshot? = none := by rw [hp]; rfl
    have hquiet : s.own t ≠ .persisting := by
      rw [hp]
      intro hne
      cases hne
    rw [hp] at hself
    cases turn with
    | persist => exact moved_quiet h hnone rfl h.known fun hne => absurd rfl hne
    | setMode id mode => exact moved_quiet h hnone rfl h.known fun _ _ => ⟨rfl, hquiet⟩
    | observe now seen =>
      refine moved_quiet h hnone rfl ?_ fun _ _ => ⟨rfl, hquiet⟩
      intro id mode hmode
      rw [Registry.modeOf_observe, h.known id mode hmode, Option.some_or]
    | go now wall => exact hself
  | setting id mode =>
    have hnone : (s.own t).snapshot? = none := by rw [hp]; rfl
    have hquiet : s.own t ≠ .persisting := by
      rw [hp]
      intro hne
      cases hne
    rw [hp] at hself
    cases turn with
    | go now wall =>
      simp only [move]
      split
      · exact moved_quiet h hnone rfl h.known fun _ _ => ⟨rfl, hquiet⟩
      · rename_i a ha
        refine moved_quiet h hnone rfl ?_ fun hne => absurd rfl hne
        intro j m hm
        rw [Registry.modeOf_setMode]
        by_cases hj : j = id
        · subst hj
          obtain rfl : mode = m := by simpa using hm
          simp [Registry.modeOf, ha]
        · rw [if_neg hj]
          rw [Function.update_of_ne hj] at hm
          exact h.known j m hm
    | _ => exact hself
  | persisting =>
    rw [hp] at hself
    cases turn with
    | go now wall => exact moved_snapshot h hp now wall
    | _ => exact hself
  | opening snapshot =>
    obtain ⟨hidle, hlater⟩ := horder snapshot hp
    rw [hp] at hself
    cases turn with
    | go now wall => exact moved_open h hp hidle hlater
    | _ => exact hself
  | writing snapshot inode =>
    rw [hp] at hself
    cases turn with
    | go now wall => exact moved_write h hp
    | _ => exact hself
  | replacing snapshot =>
    rw [hp] at hself
    cases turn with
    | go now wall =>
      obtain ⟨directory, hrename, hmoved⟩ := moved_replace h hp
      simp only [move, hrename]
      exact hmoved
    | _ => exact hself

omit [Ring K] [LinearOrder K] [DecidableEq τ] in
theorem ordered_init (registry : Registry K) (saved : Option (StateFile K))
    (left : Option (Contents (StateFile K))) :
    Ordered size (saved.map (contents size)) (init size registry saved left : State τ K) where
  apart := Directory.apart_start _ _
  known := fun _ _ hm => by cases hm
  took := fun _ _ hs => by cases hs
  waiting := by
    intro n hn hle
    simp only [init, List.length_nil] at hle
    omega
  shows := fun _ => .inl fun _ => rfl
  alone := fun _ _ ha => ha.elim
  inHand := fun _ => trivial
  read := .inl ⟨rfl, Directory.read_start _ _⟩

/-- Where the temporary file is used by one call at a time, in the order of the
snapshots, the state file is whole at all times and ends with the modes last set. -/
theorem saved_run (size : StateFile K → ℕ) (registry : Registry K)
    (saved : Option (StateFile K)) (left : Option (Contents (StateFile K)))
    (turns : List (τ × Turn K))
    (h : Runs.Along (step size) InOrder (init size registry saved left) turns) :
    Saved size (saved.map (contents size))
      (Runs.exec (step size) (init size registry saved left) turns) :=
  (Runs.exec_of_along (fun _ turn _ hs hc => ordered_of_moved hs (moved hs turn hc)) h
    (ordered_init registry saved left)).saved

-- ---------------------------------------------------------------------------
-- A phone that the user takes into use
-- ---------------------------------------------------------------------------

def joinedPhone : Atomic ℚ where
  id := "wifi:phone"
  kind := .wifi
  label := "Phone"
  mode := .unused
  health := .good
  role := .wan
  capacity := .unmeasured
  quality := .unmeasured
  cost := .zero
  ifname := some "wlan0"
  present := true
  firstSeen := none
  lastSeen := none
  everConnected := true
  attributes := []

def phoneRegistry : Registry ℚ := Keyed.empty.put joinedPhone

/-- The loop's thread is `false` and the API's is `true`; the texts have one length,
as the names of the modes have. -/
def phoneStart : State Bool ℚ := init (fun _ => 400) phoneRegistry none none

def inTurn : List (Bool × Turn ℚ) :=
  (true, .setMode "wifi:phone" .normal) :: List.replicate 5 (true, .go 0 0) ++
    (false, .persist) :: List.replicate 4 (false, .go 0 0)

/-- The loop has taken its snapshot when the choice is made, and writes it after. -/
def overtaken : List (Bool × Turn ℚ) :=
  [(false, .persist), (false, .go 0 0), (true, .setMode "wifi:phone" .normal)] ++
    List.replicate 5 (true, .go 0 0) ++ List.replicate 3 (false, .go 0 0)

theorem saved_in_turn :
    Saved (fun _ => 400) none (Runs.exec (step fun _ => 400) phoneStart inTurn) := by
  refine saved_run (fun _ => 400) phoneRegistry none none inTurn ?_
  decide

/-- The API's call empties the file that the loop is about to rename. -/
def crossed : List (Bool × Turn ℚ) :=
  [(false, .persist), (true, .setMode "wifi:phone" .normal)] ++
    List.replicate 3 (false, .go 0 0) ++ List.replicate 3 (true, .go 0 0) ++ [(false, .go 0 0)]

/-- The state file can be left empty, and it can end without the user's choice. -/
theorem overtaken_unsaved :
    (Runs.exec (step fun _ => 400) phoneStart crossed).shared.directory.read = some ⟨0, none⟩ ∧
      ¬ ∀ turns : List (Bool × Turn ℚ),
        Saved (fun _ => 400) none (Runs.exec (step fun _ => 400) phoneStart turns) := by
  refine ⟨by rfl, ?_⟩
  intro h
  obtain ⟨file, hread, hmode⟩ := (h overtaken).chosen (fun t => by cases t <;> rfl)
    "wifi:phone" .normal rfl
  have hstale : (Runs.exec (step fun _ => 400) phoneStart overtaken).shared.directory.read =
      some (contents (fun _ => 400) (phoneRegistry.persist 0 0)) := by rfl
  rw [hstale] at hread
  obtain rfl : phoneRegistry.persist 0 0 = file :=
    Option.some.inj (congrArg Contents.whole (Option.some.inj hread))
  revert hmode
  decide

end Wifucked.Persisting
