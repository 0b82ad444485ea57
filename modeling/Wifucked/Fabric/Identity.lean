import Mathlib.Data.Fintype.Basic
import Wifucked.Lib.Numerals
import Wifucked.Lib.Threads

/-!
# The fabric's own key, across workers

Each worker process reads the key file, or creates it, and remembers its key.
`wg set` gives the interface the key of the worker that ran it last. What
`wg pubkey` makes of a private key is `publicKeyOf`.
-/

namespace Wifucked.Fabric.Identity

def strip (s : String) : String := .ofList (Numerals.strip s.toList)

theorem strip_strip (s : String) : strip (strip s) = strip s := by
  have h := Numerals.strip_strip_append (l := s.toList) (s := []) (by simp)
  rw [List.append_nil] at h
  simp [strip, h]

theorem strip_line (s : String) : strip (strip s ++ "\n") = strip s := by
  have hline : ∀ c ∈ ['\n'], Numerals.isSpace c = true := by
    simp [Numerals.isSpace]
  simp [strip, Numerals.strip_strip_append hline]

/-- Where a worker stands in a request, from `ensure_ready` on. -/
inductive Point where
  | idle
  | reading
  | generating
  | creating (key : String)
  | writing (key : String)
  | protecting (key : String)
  | linking (key : String)
  | setting (key : String)
  | finishing
  | answering
  deriving DecidableEq, Repr

/-- The fields of a worker's `FabricWireGuard`. -/
structure Worker where
  privateKey : Option String
  publicKey : Option String
  ready : Bool
  point : Point
  deriving DecidableEq, Repr

structure Shared where
  keyFile : Option String
  /-- The private key of the interface. -/
  installed : Option String
  deriving DecidableEq, Repr

abbrev Turn := Except String String

/-- `existing`, with a file that cannot be read as an empty one. -/
def Shared.existing (s : Shared) : String := strip (s.keyFile.getD "")

variable (publicKeyOf : String → String)

def Worker.answeredKey (w : Worker) : String :=
  w.publicKey.getD (publicKeyOf (w.privateKey.getD ""))

def Worker.move (s : Shared) (w : Worker) : Turn → Shared × Worker := fun turn =>
  match w.point, turn with
  | .idle, _ =>
    if w.ready then (s, { w with point := .answering })
    else
      match w.privateKey with
      | some key => (s, { w with point := .linking key })
      | none => (s, { w with point := .reading })
  | .reading, _ =>
    if s.existing ≠ "" then
      (s, { w with privateKey := some s.existing, point := .linking s.existing })
    else (s, { w with point := .generating })
  | .generating, .ok output => (s, { w with point := .creating (strip output) })
  | .generating, .error _ => (s, { w with point := .idle })
  -- A file that cannot be written leaves the key to this process alone.
  | .creating key, .ok _ => ({ s with keyFile := some "" }, { w with point := .writing key })
  | .creating key, .error _ => (s, { w with privateKey := some key, point := .linking key })
  | .writing key, .ok _ =>
    ({ s with keyFile := some (key ++ "\n") }, { w with point := .protecting key })
  | .writing key, .error _ => (s, { w with privateKey := some key, point := .linking key })
  | .protecting key, _ => (s, { w with privateKey := some key, point := .linking key })
  | .linking key, .ok _ => (s, { w with point := .setting key })
  | .setting key, .ok _ => ({ s with installed := some key }, { w with point := .finishing })
  | .finishing, .ok _ => (s, { w with ready := true, point := .answering })
  | .answering, .ok _ =>
    (s, { w with publicKey := some (w.answeredKey publicKeyOf), point := .idle })
  | _, .error _ => (s, { w with point := .idle })

/-- The `fabric_public_key` that a step answers with. -/
def Worker.answer (w : Worker) : Turn → Option String
  | .ok _ => if w.point = .answering then some (w.answeredKey publicKeyOf) else none
  | .error _ => none

variable {ω : Type}

abbrev State (ω : Type) := Threads ω Shared Worker

/-- No key file, and whatever key the interface has. -/
def init (installed : Option String) : State ω :=
  { shared := ⟨none, installed⟩, own := fun _ => ⟨none, none, false, .idle⟩ }

variable [DecidableEq ω]

def step (s : State ω) (turn : ω × Turn) : State ω :=
  Threads.step (fun _ s w turn => w.move publicKeyOf s turn) s turn

/-- Once all workers are ready, an answer is the public key of the interface's key. -/
def Faithful (s : State ω) (turn : ω × Turn) : Prop :=
  (∀ v, (s.own v).ready = true) → ∀ key, (s.own turn.1).answer publicKeyOf turn.2 = some key →
    s.shared.installed.map publicKeyOf = some key

-- ---------------------------------------------------------------------------
-- One key
-- ---------------------------------------------------------------------------

def Worker.key (w : Worker) : Option String :=
  match w.point with
  | .creating key => some key
  | .writing key => some key
  | .protecting key => some key
  | _ => w.privateKey

def Point.making : Point → Prop
  | .generating => True
  | .creating _ => True
  | .writing _ => True
  | _ => False

instance : DecidablePred Point.making
  | .generating => .isTrue trivial
  | .creating _ => .isTrue trivial
  | .writing _ => .isTrue trivial
  | .idle => .isFalse id
  | .reading => .isFalse id
  | .protecting _ => .isFalse id
  | .linking _ => .isFalse id
  | .setting _ => .isFalse id
  | .finishing => .isFalse id
  | .answering => .isFalse id

def Worker.Begun (w : Worker) : Prop := w.key ≠ none ∨ w.point.making

/-- A worker that finds no key is the only one that has or makes one. -/
def FindsKey (s : State ω) (turn : ω × Turn) : Prop :=
  (s.own turn.1).point = .reading → s.shared.existing = "" →
    ∀ v, v ≠ turn.1 → ¬ (s.own v).Begun

instance (w : Worker) : Decidable w.Begun :=
  inferInstanceAs (Decidable (w.key ≠ none ∨ w.point.making))

instance [Fintype ω] (s : State ω) (turn : ω × Turn) : Decidable (FindsKey s turn) :=
  inferInstanceAs (Decidable ((s.own turn.1).point = .reading → s.shared.existing = "" →
    ∀ v, v ≠ turn.1 → ¬ (s.own v).Begun))

/-- What a worker's fields say where it stands. -/
def Worker.Placed (w : Worker) (installed : Option String) : Prop :=
  match w.point with
  | .idle => True
  | .reading => w.privateKey = none
  | .generating => w.privateKey = none
  | .creating key => w.privateKey = none ∧ strip key = key
  | .writing key => w.privateKey = none ∧ strip key = key
  | .protecting _ => w.privateKey = none
  | .linking key => w.privateKey = some key
  | .setting key => w.privateKey = some key
  | .finishing => w.privateKey ≠ none ∧ installed = w.privateKey
  | .answering => w.ready = true

structure Worker.Sound (w : Worker) (installed : Option String) : Prop where
  placed : w.Placed installed
  ready : w.ready = true → w.privateKey ≠ none ∧ installed = w.privateKey
  publicKey : ∀ key, w.publicKey = some key → w.privateKey.map publicKeyOf = some key

structure OneKey (s : State ω) : Prop where
  same : ∀ v w k l, (s.own v).key = some k → (s.own w).key = some l → k = l
  file : ∀ v k, (s.own v).key = some k → s.shared.existing = "" ∨ s.shared.existing = k
  unmade : ∀ v, (s.own v).point.making → s.shared.existing = "" ∧
    ∀ w, w ≠ v → ¬ (s.own w).Begun
  sound : ∀ v, (s.own v).Sound publicKeyOf s.shared.installed

omit [DecidableEq ω] in
theorem oneKey_init (installed : Option String) :
    OneKey publicKeyOf (init installed : State ω) where
  same := fun _ _ _ _ hk => by cases hk
  file := fun _ _ hk => by cases hk
  unmade := fun _ hmaking => hmaking.elim
  sound := fun _ => ⟨trivial, (fun h => by cases h), (fun _ h => by cases h)⟩

variable {publicKeyOf}

theorem Worker.Sound.key {w : Worker} (h : w.Sound publicKeyOf installed)
    (hk : w.privateKey = some k) : w.key = some k := by
  have hplaced := h.placed
  unfold Worker.Placed at hplaced
  unfold Worker.key
  cases hp : w.point with
  | creating key => rw [hp] at hplaced; rw [hplaced.1] at hk; cases hk
  | writing key => rw [hp] at hplaced; rw [hplaced.1] at hk; cases hk
  | protecting key => rw [hp] at hplaced; rw [hplaced] at hk; cases hk
  | _ => exact hk

/-- The cached public key is the one of the private key. -/
theorem Worker.Sound.answeredKey {w : Worker} (h : w.Sound publicKeyOf installed)
    (hk : w.privateKey ≠ none) :
    w.privateKey.map publicKeyOf = some (w.answeredKey publicKeyOf) := by
  unfold Worker.answeredKey
  cases hpub : w.publicKey with
  | some p => exact h.publicKey p hpub
  | none =>
    obtain ⟨k, hk⟩ := Option.ne_none_iff_exists'.mp hk
    rw [hk]
    rfl

/-- The obligations of a move of worker `t` that leaves the shared state `sh` and
the worker at `w`. -/
structure Moved (s : State ω) (t : ω) (sh : Shared) (w : Worker) : Prop where
  same : ∀ k, w.key = some k → ∀ v, v ≠ t → ∀ l, (s.own v).key = some l → l = k
  file : ∀ k, w.key = some k → sh.existing = "" ∨ sh.existing = k
  fileOthers : ∀ v, v ≠ t → ∀ k, (s.own v).key = some k → sh.existing = "" ∨ sh.existing = k
  unmade : w.point.making → sh.existing = "" ∧ ∀ v, v ≠ t → ¬ (s.own v).Begun
  unmadeOthers : ∀ v, v ≠ t → (s.own v).point.making → sh.existing = "" ∧ ¬ w.Begun

theorem oneKey_of_moved {s : State ω} (hs : OneKey publicKeyOf s)
    (h : Moved s turn.1 ((s.own turn.1).move publicKeyOf s.shared turn.2).1
      ((s.own turn.1).move publicKeyOf s.shared turn.2).2)
    (hown : ((s.own turn.1).move publicKeyOf s.shared turn.2).2.Sound publicKeyOf
      ((s.own turn.1).move publicKeyOf s.shared turn.2).1.installed)
    (hothers : ∀ v, v ≠ turn.1 → (s.own v).Sound publicKeyOf
      ((s.own turn.1).move publicKeyOf s.shared turn.2).1.installed) :
    OneKey publicKeyOf (step publicKeyOf s turn) := by
  obtain ⟨t, turn⟩ := turn
  have hself : (step publicKeyOf s (t, turn)).own t =
      ((s.own t).move publicKeyOf s.shared turn).2 := Threads.step_own_self _ _ _ _
  have hother : ∀ v, v ≠ t → (step publicKeyOf s (t, turn)).own v = s.own v :=
    fun v hv => Threads.step_own_of_ne _ hv _
  constructor
  · intro v w k l hk hl
    by_cases hv : v = t
    · rw [hv, hself] at hk
      by_cases hw : w = t
      · rw [hw, hself, hk] at hl
        exact Option.some.inj hl
      · rw [hother w hw] at hl
        exact (h.same k hk w hw l hl).symm
    · rw [hother v hv] at hk
      by_cases hw : w = t
      · rw [hw, hself] at hl
        exact h.same l hl v hv k hk
      · rw [hother w hw] at hl
        exact hs.same v w k l hk hl
  · intro v k hk
    by_cases hv : v = t
    · rw [hv, hself] at hk
      exact h.file k hk
    · rw [hother v hv] at hk
      exact h.fileOthers v hv k hk
  · intro v hmaking
    by_cases hv : v = t
    · rw [hv, hself] at hmaking
      refine ⟨(h.unmade hmaking).1, ?_⟩
      intro w hw
      rw [hv] at hw
      rw [hother w hw]
      exact (h.unmade hmaking).2 w hw
    · rw [hother v hv] at hmaking
      refine ⟨(h.unmadeOthers v hv hmaking).1, ?_⟩
      intro w hw
      by_cases hwt : w = t
      · rw [hwt, hself]
        exact (h.unmadeOthers v hv hmaking).2
      · rw [hother w hwt]
        exact (hs.unmade v hmaking).2 w hw
  · intro v
    by_cases hv : v = t
    · rw [hv, hself]
      exact hown
    · rw [hother v hv]
      exact hothers v hv

omit [DecidableEq ω] in
theorem moved_quiet {s : State ω} (hs : OneKey publicKeyOf s)
    (hexisting : sh.existing = s.shared.existing) (hkey : w.key = (s.own t).key)
    (hmaking : w.point.making → (s.own t).point.making) : Moved s t sh w where
  same := by
    intro k hk v _ l hl
    rw [hkey] at hk
    exact hs.same v t l k hl hk
  file := by
    intro k hk
    rw [hkey] at hk
    rw [hexisting]
    exact hs.file t k hk
  fileOthers := by
    intro v _ k hk
    rw [hexisting]
    exact hs.file v k hk
  unmade := by
    intro h
    rw [hexisting]
    exact hs.unmade t (hmaking h)
  unmadeOthers := by
    intro v hv h
    rw [hexisting]
    refine ⟨(hs.unmade v h).1, ?_⟩
    rintro (hk | hm)
    · rw [hkey] at hk
      exact (hs.unmade v h).2 t hv.symm (.inl hk)
    · exact (hs.unmade v h).2 t hv.symm (.inr (hmaking hm))

/-- Most moves leave the file and the key as they were, and begin nothing: all
but finding a key or that there is none, getting a new one, and writing it. -/
theorem Worker.move_quiet (s : Shared) (w : Worker) (turn : Turn) (hreading : w.point ≠ .reading)
    (hgenerating : w.point = .generating → ∃ detail, turn = .error detail)
    (hcreating : w.point.making → s.existing = "")
    (hwriting : ∀ key, w.point = .writing key → ∃ detail, turn = .error detail) :
    (w.move publicKeyOf s turn).1.existing = s.existing ∧
      (w.move publicKeyOf s turn).2.key = w.key ∧
      ((w.move publicKeyOf s turn).2.point.making → w.point.making) := by
  cases hp : w.point with
  | idle =>
    simp only [Worker.move, hp]
    split
    · simp [Worker.key, hp, Point.making]
    · split <;> simp [Worker.key, hp, Point.making]
  | reading => exact absurd hp hreading
  | generating =>
    obtain ⟨detail, rfl⟩ := hgenerating hp
    simp [Worker.move, hp, Worker.key, Point.making]
  | creating key =>
    have hempty : s.existing = "" := hcreating (by rw [hp]; trivial)
    cases turn with
    | error detail => simp [Worker.move, hp, Worker.key, Point.making]
    | ok output =>
      simp only [Worker.move, hp]
      exact ⟨hempty.symm, by simp [Worker.key, hp], fun _ => trivial⟩
  | writing key =>
    obtain ⟨detail, rfl⟩ := hwriting key hp
    simp [Worker.move, hp, Worker.key, Point.making]
  | _ => cases turn <;> simp [Worker.move, hp, Worker.key, Point.making, Shared.existing]

omit [DecidableEq ω] in
theorem moved {s : State ω} (hs : OneKey publicKeyOf s) (turn : ω × Turn)
    (hfinds : FindsKey s turn) :
    Moved s turn.1 ((s.own turn.1).move publicKeyOf s.shared turn.2).1
      ((s.own turn.1).move publicKeyOf s.shared turn.2).2 := by
  obtain ⟨t, turn⟩ := turn
  have hquiet : (s.own t).point ≠ .reading →
      ((s.own t).point = .generating → ∃ detail, turn = .error detail) →
      (∀ key, (s.own t).point = .writing key → ∃ detail, turn = .error detail) →
      Moved s t ((s.own t).move publicKeyOf s.shared turn).1
        ((s.own t).move publicKeyOf s.shared turn).2 := by
    intro hreading hgenerating hwriting
    obtain ⟨hfile, hkey, hmaking⟩ := (s.own t).move_quiet s.shared turn hreading hgenerating
      (fun hm => (hs.unmade t hm).1) hwriting
    exact moved_quiet hs hfile hkey hmaking
  have hplaced := (hs.sound t).placed
  unfold Worker.Placed at hplaced
  cases hp : (s.own t).point with
  | reading =>
    rw [hp] at hplaced
    simp only [Worker.move, hp]
    split
    · rename_i hfound
      refine ⟨?_, ?_, fun v _ => hs.file v, fun h => h.elim, ?_⟩
      · intro k hk v _ l hl
        obtain rfl := Option.some.inj hk
        exact ((hs.file v l hl).resolve_left hfound).symm
      · intro k hk
        exact .inr (Option.some.inj hk)
      · intro v _ hmaking
        exact absurd (hs.unmade v hmaking).1 hfound
    · rename_i hnone
      have hnone : s.shared.existing = "" := by simpa using hnone
      have hfinds := hfinds hp hnone
      refine ⟨?_, ?_, fun v _ => hs.file v, fun _ => ⟨hnone, hfinds⟩, ?_⟩
      · intro k hk
        rw [Worker.key] at hk
        rw [hplaced] at hk
        cases hk
      · intro k _
        exact .inl hnone
      · intro v hv hmaking
        exact absurd (.inr hmaking) (hfinds v hv)
  | generating =>
    have hmaking : (s.own t).point.making := by rw [hp]; trivial
    obtain ⟨hnone, halone⟩ := hs.unmade t hmaking
    cases turn with
    | error detail => exact hquiet (by simp [hp]) (fun _ => ⟨detail, rfl⟩) (by simp [hp])
    | ok output =>
      simp only [Worker.move, hp]
      refine ⟨?_, fun _ _ => .inl hnone, fun v _ => hs.file v, fun _ => ⟨hnone, halone⟩, ?_⟩
      · intro k _ v hv l hl
        exact absurd (.inl (by simp [hl])) (halone v hv)
      · intro v hv hm
        exact absurd (.inr hm) (halone v hv)
  | writing key =>
    have hmaking : (s.own t).point.making := by rw [hp]; trivial
    obtain ⟨-, halone⟩ := hs.unmade t hmaking
    rw [hp] at hplaced
    cases turn with
    | error detail => exact hquiet (by simp [hp]) (by simp [hp]) fun _ _ => ⟨detail, rfl⟩
    | ok output =>
      simp only [Worker.move, hp]
      have hwritten : Shared.existing { s.shared with keyFile := some (key ++ "\n") } = key := by
        rw [← hplaced.2]
        exact strip_line key
      refine ⟨?_, ?_, ?_, fun h => h.elim, ?_⟩
      · intro k _ v hv l hl
        exact absurd (.inl (by simp [hl])) (halone v hv)
      · intro k hk
        rw [hwritten]
        exact .inr (Option.some.inj hk)
      · intro v hv k hk
        exact absurd (.inl (by simp [hk])) (halone v hv)
      · intro v hv hm
        exact absurd (.inr hm) (halone v hv)
  | _ => exact hquiet (by simp [hp]) (by simp [hp]) (by simp [hp])

theorem Worker.Sound.goTo {w : Worker} {next : Point} (h : w.Sound publicKeyOf installed)
    (hready : w.ready = true → w.privateKey ≠ none ∧ installed' = w.privateKey)
    (hplaced : ({ w with point := next } : Worker).Placed installed') :
    ({ w with point := next } : Worker).Sound publicKeyOf installed' :=
  ⟨hplaced, hready, h.publicKey⟩

theorem Worker.Sound.take {w : Worker} (h : w.Sound publicKeyOf installed)
    (hnone : w.privateKey = none) (key : String) :
    ({ w with privateKey := some key, point := .linking key } : Worker).Sound publicKeyOf
      installed where
  placed := rfl
  ready := fun hready => absurd hnone (h.ready hready).1
  publicKey := by
    intro p hp
    have hpub := h.publicKey p hp
    rw [hnone] at hpub
    cases hpub

theorem sound_move {s : Shared} {w : Worker} (h : w.Sound publicKeyOf s.installed) (turn : Turn) :
    (w.move publicKeyOf s turn).2.Sound publicKeyOf (w.move publicKeyOf s turn).1.installed := by
  have hplaced := h.placed
  unfold Worker.Placed at hplaced
  cases hp : w.point with
  | idle =>
    simp only [Worker.move, hp]
    split
    · rename_i hready
      exact h.goTo h.ready hready
    · split
      · rename_i hk
        exact h.goTo h.ready hk
      · rename_i hk
        exact h.goTo h.ready hk
  | reading =>
    rw [hp] at hplaced
    simp only [Worker.move, hp]
    split
    · exact h.take hplaced _
    · exact h.goTo h.ready hplaced
  | generating =>
    rw [hp] at hplaced
    cases turn with
    | error detail =>
      simp only [Worker.move, hp]
      exact h.goTo h.ready trivial
    | ok output =>
      simp only [Worker.move, hp]
      exact h.goTo h.ready ⟨hplaced, strip_strip output⟩
  | creating key =>
    rw [hp] at hplaced
    cases turn with
    | error detail =>
      simp only [Worker.move, hp]
      exact h.take hplaced.1 key
    | ok output =>
      simp only [Worker.move, hp]
      exact h.goTo h.ready hplaced
  | writing key =>
    rw [hp] at hplaced
    cases turn with
    | error detail =>
      simp only [Worker.move, hp]
      exact h.take hplaced.1 key
    | ok output =>
      simp only [Worker.move, hp]
      exact h.goTo h.ready hplaced.1
  | protecting key =>
    rw [hp] at hplaced
    simp only [Worker.move, hp]
    exact h.take hplaced key
  | linking key =>
    rw [hp] at hplaced
    cases turn with
    | error detail =>
      simp only [Worker.move, hp]
      exact h.goTo h.ready trivial
    | ok output =>
      simp only [Worker.move, hp]
      exact h.goTo h.ready hplaced
  | setting key =>
    rw [hp] at hplaced
    cases turn with
    | error detail =>
      simp only [Worker.move, hp]
      exact h.goTo h.ready trivial
    | ok output =>
      simp only [Worker.move, hp]
      have hset : w.privateKey ≠ none ∧ some key = w.privateKey := by
        rw [hplaced]
        exact ⟨by simp, rfl⟩
      exact h.goTo (fun _ => hset) hset
  | finishing =>
    rw [hp] at hplaced
    cases turn with
    | error detail =>
      simp only [Worker.move, hp]
      exact h.goTo h.ready trivial
    | ok output =>
      simp only [Worker.move, hp]
      exact ⟨rfl, fun _ => hplaced, h.publicKey⟩
  | answering =>
    rw [hp] at hplaced
    cases turn with
    | error detail =>
      simp only [Worker.move, hp]
      exact h.goTo h.ready trivial
    | ok output =>
      simp only [Worker.move, hp]
      refine ⟨trivial, h.ready, ?_⟩
      intro p hkey
      rw [← hkey]
      exact h.answeredKey (h.ready hplaced).1

omit [DecidableEq ω] in
theorem sound_others {s : State ω} {turn : ω × Turn} (hs : OneKey publicKeyOf s) (hv : v ≠ turn.1) :
    (s.own v).Sound publicKeyOf
      ((s.own turn.1).move publicKeyOf s.shared turn.2).1.installed := by
  obtain ⟨t, turn⟩ := turn
  have hsound := hs.sound v
  by_cases hset : ∃ key, (s.own t).point = .setting key ∧ turn.isOk = true
  · obtain ⟨key, hp, hok⟩ := hset
    have hplaced := (hs.sound t).placed
    unfold Worker.Placed at hplaced
    rw [hp] at hplaced
    have hinstalled : ((s.own t).move publicKeyOf s.shared turn).1.installed = some key := by
      cases turn with
      | error detail => cases hok
      | ok output => simp only [Worker.move, hp]
    have hsame : (s.own v).privateKey ≠ none → some key = (s.own v).privateKey := by
      intro hne
      obtain ⟨k, hk⟩ := Option.ne_none_iff_exists'.mp hne
      rw [hk, hs.same t v key k ((hs.sound t).key hplaced) (hsound.key hk)]
    rw [hinstalled]
    refine ⟨?_, fun hready => ⟨(hsound.ready hready).1, hsame (hsound.ready hready).1⟩,
      hsound.publicKey⟩
    have hvplaced := hsound.placed
    unfold Worker.Placed at hvplaced ⊢
    cases hvp : (s.own v).point with
    | finishing =>
      rw [hvp] at hvplaced
      exact ⟨hvplaced.1, hsame hvplaced.1⟩
    | _ =>
      rw [hvp] at hvplaced
      exact hvplaced
  · have hinstalled : ((s.own t).move publicKeyOf s.shared turn).1.installed =
        s.shared.installed := by
      cases hp : (s.own t).point with
      | idle =>
        simp only [Worker.move, hp]
        split
        · rfl
        · split <;> rfl
      | reading =>
        simp only [Worker.move, hp]
        split <;> rfl
      | setting key =>
        cases turn with
        | error detail => simp only [Worker.move, hp]
        | ok output => exact absurd ⟨key, hp, rfl⟩ hset
      | _ => cases turn <;> simp only [Worker.move, hp]
    rw [hinstalled]
    exact hsound

theorem oneKey_step {s : State ω} (hs : OneKey publicKeyOf s) (turn : ω × Turn)
    (hfinds : FindsKey s turn) : OneKey publicKeyOf (step publicKeyOf s turn) :=
  oneKey_of_moved hs (moved hs turn hfinds) (sound_move (hs.sound turn.1) turn.2)
    fun _ hv => sound_others hs hv

omit [DecidableEq ω] in
theorem OneKey.faithful {s : State ω} (hs : OneKey publicKeyOf s) (turn : ω × Turn) :
    Faithful publicKeyOf s turn := by
  intro _ key hanswer
  obtain ⟨t, turn⟩ := turn
  cases turn with
  | error detail => cases hanswer
  | ok output =>
    simp only [Worker.answer] at hanswer
    split at hanswer
    · rename_i hp
      obtain rfl := Option.some.inj hanswer
      have hplaced := (hs.sound t).placed
      unfold Worker.Placed at hplaced
      rw [hp] at hplaced
      obtain ⟨hk, hinstalled⟩ := (hs.sound t).ready hplaced
      rw [hinstalled]
      exact (hs.sound t).answeredKey hk
    · cases hanswer

/-- Where each worker but the first finds the key that the first one wrote,
every answer is the interface's key. -/
theorem faithful_run (publicKeyOf : String → String) (installed : Option String)
    (turns : List (ω × Turn))
    (hfinds : Runs.Along (step publicKeyOf) FindsKey (init installed) turns) :
    Runs.Along (step publicKeyOf) (Faithful publicKeyOf) (init installed) turns := by
  have hstep : ∀ (s : State ω) turn, OneKey publicKeyOf s → FindsKey s turn →
      OneKey publicKeyOf (step publicKeyOf s turn) ∧ Faithful publicKeyOf s turn :=
    fun _ turn hs hc => ⟨oneKey_step hs turn hc, hs.faithful turn⟩
  exact Runs.along_of hstep (oneKey_init _ installed) hfinds

/-- Two workers become ready one after the other, and the first answers again. -/
theorem faithful_in_turn :
    Runs.Along (step (· ++ "=")) (Faithful (· ++ "=")) (init none : State Bool)
      (List.replicate 10 (false, .ok "a\n") ++ List.replicate 6 (true, .ok "b\n") ++
        List.replicate 2 (false, .ok "")) := by
  refine faithful_run _ none _ ?_
  decide

/-- Both workers look for the key file before either has written it. -/
theorem unfaithful_race :
    ¬ ∀ turns : List (Bool × Turn),
      Runs.Along (step (· ++ "=")) (Faithful (· ++ "=")) (init none) turns := by
  intro h
  have hrun := h (List.replicate 2 (false, .ok "") ++ List.replicate 2 (true, .ok "") ++
    List.replicate 7 (false, .ok "a\n") ++ List.replicate 8 (true, .ok "b\n") ++
    [(false, .ok "")])
  have hlast := (Runs.along_append.mp hrun).2.1
  have hkey := hlast (by decide) "a=" (by decide)
  revert hkey
  decide

end Wifucked.Fabric.Identity
