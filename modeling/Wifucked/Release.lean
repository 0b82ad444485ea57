import Wifucked.Fabric.WireGuard
import Wifucked.Lib.Runs
import Wifucked.Lib.SemVer

/-!
# Releases

The version of a build comes from the newest tag and from what the commits since
then say of themselves. A build that is not published gets a version that comes
after all that was published before it, and before all that has its commits.
-/

namespace Wifucked.Release

open SemVer (Core Ident Precedes Version)

-- ---------------------------------------------------------------------------
-- What commits say
-- ---------------------------------------------------------------------------

/-- The subject of a commit, and the lines of its whole message. -/
structure Message where
  subject : List Char
  body : List (List Char)
  deriving DecidableEq, Repr

/-- `(\([^)]*\))?`, where what follows starts with no parenthesis. -/
def afterScope : List Char → List Char
  | '(' :: rest => (rest.dropWhile (· ≠ ')')).tail
  | rest => rest

/-- `^[a-z]+(\([^)]*\))?!:` -/
def breakingSubject (subject : List Char) : Bool :=
  (subject.head?.any Char.isLower) &&
    "!:".toList.isPrefixOf (afterScope (subject.dropWhile Char.isLower))

/-- `^BREAKING[ -]CHANGE:` -/
def breakingFooter (line : List Char) : Bool :=
  "BREAKING CHANGE:".toList.isPrefixOf line || "BREAKING-CHANGE:".toList.isPrefixOf line

/-- `^feat(\([^)]*\))?:` -/
def featSubject (subject : List Char) : Bool :=
  "feat".toList.isPrefixOf subject && (afterScope (subject.drop 4)).head? = some ':'

inductive Bump where
  | patch
  | minor
  | major
  deriving DecidableEq, Repr

def Bump.level : Bump → ℕ
  | .patch => 0
  | .minor => 1
  | .major => 2

def Bump.highest (breaking feat : Bool) : Bump :=
  if breaking then .major else if feat then .minor else .patch

def bumpOf (range : List Message) : Bump :=
  .highest
    (range.any (fun m => breakingSubject m.subject) ||
      range.any (fun m => m.body.any breakingFooter))
    (range.any fun m => featSubject m.subject)

def Bump.apply : Bump → Core → Core
  | .major, c => ⟨c.major + 1, 0, 0⟩
  | .minor, c => ⟨c.major, c.minor + 1, 0⟩
  | .patch, c => ⟨c.major, c.minor, c.patch + 1⟩

-- ---------------------------------------------------------------------------
-- The script
-- ---------------------------------------------------------------------------

inductive Mode where
  | pr (number : ℕ)
  | rc
  | release
  deriving DecidableEq, Repr

structure Emitted where
  version : List Char
  core : List Char
  tag : List Char
  /-- `none` is `initial`. -/
  bump : Option Bump
  previous : List Char
  commit : List Char
  publish : Bool
  deriving DecidableEq, Repr

def versionText (mode : Mode) (sha : List Char) (core : Core) : List Char :=
  match mode with
  | .pr number => core.text ++ "-pr".toList ++ (toString number).toList ++ '.' :: sha
  | .rc => core.text ++ "-rc.".toList ++ sha
  | .release => core.text

def emit (mode : Mode) (sha : List Char) (bump : Option Bump) (previous : List Char)
    (core : Core) : Emitted :=
  ⟨versionText mode sha core, core.text, 'v' :: core.text, bump, previous, sha,
    mode = .release⟩

/-- `${LAST_TAG#v}` -/
def baseOf : List Char → List Char
  | 'v' :: base => base
  | tag => tag

/-- `none` is where the arithmetic of the shell fails. -/
def nextVersion (mode : Mode) (sha : List Char) (lastTag : Option (List Char))
    (range : List Message) : Option Emitted :=
  match lastTag with
  | none => some (emit mode sha none "0.0.0".toList ⟨0, 1, 0⟩)
  | some tag => do
    let core ← SemVer.core (baseOf tag)
    return emit mode sha (some (bumpOf range)) (baseOf tag) ((bumpOf range).apply core)

-- ---------------------------------------------------------------------------
-- The branch it runs on
-- ---------------------------------------------------------------------------

structure Published where
  tag : List Char
  version : List Char
  range : List Message
  deriving DecidableEq, Repr

/-- What was published, the newest first, and the commits since then. -/
structure Repo where
  published : List Published
  pending : List Message

def Repo.lastTag (r : Repo) : Option (List Char) := r.published.head?.map Published.tag

inductive Event where
  | push (messages : List Message)
  | release (sha : List Char)

/-- A release is of commits that none has had before. -/
def step (r : Repo) : Event → Repo
  | .push messages => { r with pending := r.pending ++ messages }
  | .release sha =>
    if r.pending = [] then r
    else
      match nextVersion .release sha r.lastTag r.pending with
      | some e => ⟨⟨e.tag, e.version, r.pending⟩ :: r.published, []⟩
      | none => r

-- ---------------------------------------------------------------------------
-- Bumps
-- ---------------------------------------------------------------------------

theorem level_highest_or (breaking breaking' feat feat' : Bool) :
    (Bump.highest (breaking || breaking') (feat || feat')).level =
      max (Bump.highest breaking feat).level (Bump.highest breaking' feat').level := by
  revert breaking breaking' feat feat'
  decide

theorem level_cons (m : Message) (range : List Message) :
    (bumpOf (m :: range)).level = max (bumpOf [m]).level (bumpOf range).level := by
  rw [bumpOf, bumpOf, bumpOf, ← level_highest_or]
  simp only [List.any_cons, List.any_nil, Bool.or_false, Bool.or_assoc, Bool.or_left_comm]

theorem exists_level (h : range ≠ []) :
    ∃ m ∈ range, (bumpOf [m]).level = (bumpOf range).level := by
  induction range with
  | nil => exact absurd rfl h
  | cons m range ih =>
    rw [level_cons]
    by_cases hm : (bumpOf range).level ≤ (bumpOf [m]).level
    · exact ⟨m, List.mem_cons_self, (max_eq_left hm).symm⟩
    · have hne : range ≠ [] := by
        rintro rfl
        exact hm (Nat.zero_le _)
      obtain ⟨m', hm', hlevel⟩ := ih hne
      exact ⟨m', List.mem_cons_of_mem _ hm', by rw [hlevel, max_eq_right (by omega)]⟩

theorem level_of_mem (h : m ∈ range) : (bumpOf [m]).level ≤ (bumpOf range).level := by
  induction range with
  | nil => cases h
  | cons m' range ih =>
    rw [level_cons m' range]
    rcases List.mem_cons.mp h with rfl | h
    · exact Nat.le_max_left ..
    · exact Nat.le_trans (ih h) (Nat.le_max_right ..)

theorem lt_apply (b : Bump) (c : Core) : c.Lt (b.apply c) := by
  cases b <;> simp [Bump.apply, Core.Lt]

theorem apply_mono {b b' : Bump} {c c' : Core} (hb : b.level ≤ b'.level) (hc : c.Le c') :
    (b.apply c).Le (b'.apply c') := by
  obtain ⟨x, y, z⟩ := c
  obtain ⟨x', y', z'⟩ := c'
  simp only [Core.Le, Core.Lt, Core.mk.injEq] at hc
  cases b <;> cases b' <;> simp [Bump.level, Core.Le, Core.Lt, Bump.apply] at hb ⊢ <;> omega

-- ---------------------------------------------------------------------------
-- What was published
-- ---------------------------------------------------------------------------

/-- The version that a range gets on top of what was published. -/
def coreOf : List Published → List Message → Core
  | [], _ => ⟨0, 1, 0⟩
  | p :: published, range => (bumpOf range).apply (coreOf published p.range)

def Printed : List Published → Prop
  | [] => True
  | p :: published =>
    Printed published ∧ p.range ≠ [] ∧ p.version = (coreOf published p.range).text ∧
      p.tag = 'v' :: p.version

theorem nextVersion_eq {r : Repo} (h : Printed r.published) (mode : Mode)
    (sha : List Char) (range : List Message) :
    ∃ bump previous, nextVersion mode sha r.lastTag range =
      some (emit mode sha bump previous (coreOf r.published range)) := by
  obtain ⟨published, pending⟩ := r
  cases published with
  | nil => exact ⟨none, _, rfl⟩
  | cons p published =>
    obtain ⟨-, -, hversion, htag⟩ := h
    refine ⟨some (bumpOf range), p.version, ?_⟩
    simp [nextVersion, Repo.lastTag, htag, baseOf, hversion, SemVer.core_text, coreOf]

/-- What was published on top of `r` until `s`, and where the commits of `r` went. -/
def Onto (r s : Repo) (later : List Published) : Prop :=
  s.published = later ++ r.published ∧
    (later = [] → r.pending ⊆ s.pending) ∧ ∀ first ∈ later.getLast?, r.pending ⊆ first.range

theorem onto_refl (r : Repo) : Onto r r [] := ⟨rfl, fun _ => List.Subset.refl _, by simp⟩

theorem step_printed (h : Printed r.published) (e : Event) : Printed (step r e).published := by
  cases e with
  | push messages => exact h
  | release sha =>
    obtain ⟨bump, previous, hnext⟩ := nextVersion_eq h .release sha r.pending
    by_cases hpending : r.pending = []
    · simpa only [step, if_pos hpending] using h
    · simp only [step, if_neg hpending, hnext]
      exact ⟨h, hpending, rfl, rfl⟩

theorem step_onto (h : Printed s.published) (hs : Onto r s later) (e : Event) :
    ∃ later', Onto r (step s e) later' := by
  obtain ⟨hpublished, hpending, hfirst⟩ := hs
  cases e with
  | push messages =>
    exact ⟨later, hpublished,
      fun hl => List.Subset.trans (hpending hl) (List.subset_append_left _ _), hfirst⟩
  | release sha =>
    obtain ⟨bump, previous, hnext⟩ := nextVersion_eq h .release sha s.pending
    by_cases hempty : s.pending = []
    · simp only [step, if_pos hempty]
      exact ⟨later, hpublished, hpending, hfirst⟩
    · simp only [step, if_neg hempty, hnext]
      refine ⟨_ :: later, congrArg _ hpublished, by simp, ?_⟩
      rintro first hmem
      cases later with
      | nil =>
        obtain rfl := Option.some.inj hmem
        exact hpending rfl
      | cons p later => exact hfirst first (by simpa using hmem)

theorem exec_printed (events : List Event) :
    Printed (Runs.exec step ⟨[], []⟩ events).published :=
  Runs.exec_keeps (P := fun r : Repo => Printed r.published) (fun _ e _ h => step_printed h e)
    trivial

-- ---------------------------------------------------------------------------
-- The order of what was published
-- ---------------------------------------------------------------------------

def newest : List Published → Core
  | [] => ⟨0, 0, 0⟩
  | p :: published => coreOf published p.range

theorem newest_lt (published : List Published) (range : List Message) :
    (newest published).Lt (coreOf published range) := by
  cases published with
  | nil => exact (by decide : Core.Lt ⟨0, 0, 0⟩ ⟨0, 1, 0⟩)
  | cons p published => exact lt_apply _ _

theorem newest_le (later published : List Published) :
    (newest published).Le (newest (later ++ published)) := by
  induction later with
  | nil => exact .inl rfl
  | cons p later ih => exact ih.trans (.inr (newest_lt _ _))

theorem version_of_mem (h : Printed published) (hp : p ∈ published) :
    ∃ c : Core, p.version = c.text ∧ c.Le (newest published) := by
  induction published with
  | nil => cases hp
  | cons q published ih =>
    rcases List.mem_cons.mp hp with rfl | hp
    · exact ⟨_, h.2.2.1, .inl rfl⟩
    · obtain ⟨c, hc, hle⟩ := ih h.1 hp
      exact ⟨c, hc, hle.trans (.inr (newest_lt _ _))⟩

theorem apply_le_newest {b : Bump} (hne : published ≠ []) (hp : p ∈ later)
    (hb : b.level ≤ (bumpOf p.range).level) :
    (b.apply (newest published)).Le (newest (later ++ published)) := by
  induction later with
  | nil => cases hp
  | cons q later ih =>
    rcases List.mem_cons.mp hp with rfl | hp
    · have hcore : newest (p :: later ++ published) =
          (bumpOf p.range).apply (newest (later ++ published)) := by
        cases hl : later ++ published with
        | nil => exact absurd (List.append_eq_nil_iff.mp hl).2 hne
        | cons q rest => rw [List.cons_append, hl]; rfl
      rw [hcore]
      exact apply_mono hb (newest_le later published)
    · exact (ih hp).trans (.inr (newest_lt _ _))

/-- The core a build gets is reached once its bump was asked for. -/
theorem coreOf_le_newest {r s : Repo} (hs : Onto r s later) (hne : later ≠ [])
    (hbranch : ∀ m ∈ branch, ∃ p ∈ later, (bumpOf [m]).level ≤ (bumpOf p.range).level) :
    (coreOf r.published (r.pending ++ branch)).Le (newest s.published) := by
  obtain ⟨hpublished, -, hfirst⟩ := hs
  rw [hpublished]
  cases hr : r.published with
  | nil =>
    obtain ⟨later, first, rfl⟩ := List.eq_nil_or_concat later |>.resolve_left hne
    rw [List.append_nil, List.concat_eq_append]
    exact newest_le later [first]
  | cons p published =>
    rw [← hr]
    have hcore : coreOf r.published (r.pending ++ branch) =
        (bumpOf (r.pending ++ branch)).apply (newest r.published) := by
      rw [hr]
      rfl
    have hreached : ∀ m ∈ r.pending ++ branch,
        ∃ p ∈ later, (bumpOf [m]).level ≤ (bumpOf p.range).level := by
      intro m hm
      rcases List.mem_append.mp hm with hm | hm
      · obtain ⟨first, hlast⟩ : ∃ first, later.getLast? = some first :=
          Option.ne_none_iff_exists'.mp (by simpa using hne)
        exact ⟨first, List.mem_of_getLast? hlast, level_of_mem (hfirst first hlast hm)⟩
      · exact hbranch m hm
    rw [hcore]
    by_cases hempty : r.pending ++ branch = []
    · obtain ⟨p, hp⟩ := List.exists_mem_of_ne_nil later hne
      refine apply_le_newest (by simp [hr]) hp ?_
      rw [hempty]
      exact Nat.zero_le _
    · obtain ⟨m, hm, hlevel⟩ := exists_level hempty
      obtain ⟨p, hp, hle⟩ := hreached m hm
      exact apply_le_newest (by simp [hr]) hp (hlevel ▸ hle)

-- ---------------------------------------------------------------------------
-- Builds that are not published
-- ---------------------------------------------------------------------------

def IsSha (sha : List Char) : Prop :=
  7 ≤ sha.length ∧ sha.all fun c => c.isDigit || c ∈ "abcdef".toList

instance (sha : List Char) : Decidable (IsSha sha) := inferInstanceAs (Decidable (_ ∧ _))

/-- Digits with a zero before them are no identifier of a version. -/
def Numeral (sha : List Char) : Prop := (∀ c ∈ sha, c.isDigit) ∧ sha.head? = some '0'

theorem IsSha.isIdentChar (h : IsSha sha) : ∀ c ∈ sha, SemVer.isIdentChar c := by
  intro c hc
  have hchar := List.all_eq_true.mp h.2 c hc
  rw [Bool.or_eq_true, decide_eq_true_eq] at hchar
  rcases hchar with hdigit | hletter
  · simp [SemVer.isIdentChar, Char.isAlphanum, hdigit]
  · exact List.all_eq_true.mp (by decide : "abcdef".toList.all SemVer.isIdentChar) c hletter

def kindText : Mode → List Char
  | .pr number => "pr".toList ++ Nat.toDigits 10 number
  | .rc => "rc".toList
  | .release => []

theorem versionText_eq (mode : Mode) (hmode : mode ≠ .release) (sha : List Char) (c : Core) :
    versionText mode sha c = c.text ++ '-' :: (kindText mode ++ '.' :: sha) := by
  cases mode with
  | pr number => simp [versionText, kindText]
  | rc => simp [versionText, kindText]
  | release => exact absurd rfl hmode

theorem kindText_cons (mode : Mode) (hmode : mode ≠ .release) :
    ∃ c rest, kindText mode = c :: rest ∧ ¬c.isDigit ∧ ∀ x ∈ c :: rest, SemVer.isIdentChar x := by
  cases mode with
  | pr number =>
    refine ⟨'p', 'r' :: Nat.toDigits 10 number, rfl, by decide, ?_⟩
    intro x hx
    rcases List.mem_cons.mp hx with rfl | hx
    · decide
    · rcases List.mem_cons.mp hx with rfl | hx
      · decide
      · have hdigit := Nat.isDigit_of_mem_toDigits (by decide) (by decide) hx
        simp [SemVer.isIdentChar, Char.isAlphanum, hdigit]
  | rc =>
    exact ⟨'r', ['c'], rfl, by decide,
      List.all_eq_true.mp (by decide : ['r', 'c'].all SemVer.isIdentChar)⟩
  | release => exact absurd rfl hmode

theorem ident_kindText (mode : Mode) (hmode : mode ≠ .release) :
    SemVer.ident (kindText mode) = some (.alnum (kindText mode)) := by
  obtain ⟨c, rest, htext, hdigit, hident⟩ := kindText_cons mode hmode
  rw [htext, SemVer.ident, if_neg, if_pos (List.all_eq_true.mpr hident)]
  rw [List.all_cons, Bool.and_eq_true]
  exact fun h => hdigit h.1

theorem parse_versionText (mode : Mode) (hmode : mode ≠ .release) (hsha : IsSha sha) (c : Core) :
    SemVer.parse (versionText mode sha c) =
      (SemVer.ident sha).map fun i => ⟨c, [.alnum (kindText mode), i]⟩ := by
  obtain ⟨c', rest, htext, -, hident⟩ := kindText_cons mode hmode
  have hkind : ∀ x ∈ kindText mode, x ≠ '.' ∧ x ≠ '+' := fun x hx =>
    SemVer.isIdentChar_ne (hident x (htext ▸ hx))
  have hchars := fun x hx => SemVer.isIdentChar_ne (hsha.isIdentChar x hx)
  rw [versionText_eq mode hmode, SemVer.parse_append]
  · rw [List.splitOn_append_cons_self_of_not_mem fun hx => (hkind '.' hx).1 rfl,
      List.splitOn_eq_singleton fun hx => (hchars '.' hx).1 rfl, List.mapM_cons,
      ident_kindText mode hmode, List.mapM_cons, List.mapM_nil]
    cases SemVer.ident sha <;> rfl
  · intro x hx
    rw [List.mem_append, List.mem_cons] at hx
    rcases hx with hx | rfl | hx
    · exact (hkind x hx).2
    · decide
    · exact (hchars x hx).2

-- ---------------------------------------------------------------------------
-- What a version check sees
-- ---------------------------------------------------------------------------

def tuple (c : Core) : List ℤ := [(c.major : ℤ), (c.minor : ℤ), (c.patch : ℤ)]

theorem tuple_lt {c d : Core} (h : c.Lt d) : tuple c < tuple d := by
  obtain ⟨x, y, z⟩ := c
  obtain ⟨x', y', z'⟩ := d
  simp only [tuple, List.cons_lt_cons_iff, Core.Lt] at h ⊢
  omega

def Short (c : Core) : Prop := ∀ n ∈ [c.major, c.minor, c.patch], n < 10 ^ Numerals.maxDigits

theorem coreOf_le (published : List Published) (range : List Message) :
    ∀ n ∈ [(coreOf published range).major, (coreOf published range).minor,
      (coreOf published range).patch], n ≤ published.length + 1 := by
  induction published generalizing range with
  | nil => simp [coreOf]
  | cons p published ih =>
    have hstep := ih p.range
    simp only [List.forall_mem_cons, List.not_mem_nil, false_implies, implies_true,
      and_true, List.length_cons] at hstep ⊢
    rw [coreOf]
    cases bumpOf range <;> simp only [Bump.apply] <;> omega

instance (c : Core) : Decidable (Short c) :=
  inferInstanceAs (Decidable (∀ n ∈ [c.major, c.minor, c.patch], n < 10 ^ Numerals.maxDigits))

theorem numbers_text (c : Core) :
    (((c.text.takeWhile (· ≠ '+')).splitOn '.' ++ [['0'], ['0'], ['0']]).take 3 |>.mapM
      Numerals.shortInt).getD [0, 0, 0] = if Short c then tuple c else [0, 0, 0] := by
  have hplus : c.text.takeWhile (· ≠ '+') = c.text :=
    List.takeWhile_eq_self_iff.mpr fun x hx => decide_eq_true (SemVer.mem_core_text_ne hx).1
  rw [hplus, SemVer.splitOn_text]
  simp only [List.cons_append, List.take_succ_cons, List.take_zero, List.mapM_cons, List.mapM_nil,
    Numerals.shortInt_toDigits, Short, List.forall_mem_cons, tuple]
  split_ifs <;> simp_all

theorem versionTuple_le (c : Core) : Fabric.versionTuple (String.ofList c.text) ≤ tuple c := by
  have hplain : c.text.takeWhile (· ≠ '-') = c.text :=
    List.takeWhile_eq_self_iff.mpr fun x hx => decide_eq_true (SemVer.mem_core_text_ne hx).2
  rw [Fabric.versionTuple, String.toList_ofList, hplain, numbers_text]
  split
  · exact le_rfl
  · refine not_lt.mp ?_
    have hnil : ¬([] : List ℤ) < [] := List.not_lt_nil _
    simp only [tuple, List.cons_lt_cons_iff, hnil, and_false, or_false]
    omega

theorem versionTuple_build {c : Core} (h : Short c) (part : List Char) :
    Fabric.versionTuple (String.ofList (c.text ++ '-' :: part)) = tuple c := by
  have hminus : ∀ x ∈ c.text, decide (x ≠ '-') = true := fun x hx =>
    decide_eq_true (SemVer.mem_core_text_ne hx).2
  have htake : (c.text ++ '-' :: part).takeWhile (· ≠ '-') = c.text := by
    rw [List.takeWhile_append_of_pos hminus]
    exact List.append_nil _
  rw [Fabric.versionTuple, String.toList_ofList, htake, numbers_text, if_pos h]

-- ---------------------------------------------------------------------------
-- Runs
-- ---------------------------------------------------------------------------

def Published.Is (p : Published) (v : Version) : Prop := SemVer.parse p.version = some v

theorem published_increases (h : Printed published) :
    published.Pairwise fun later earlier =>
      ∃ v w, earlier.Is v ∧ later.Is w ∧ Precedes v w := by
  induction published with
  | nil => exact .nil
  | cons p published ih =>
    refine .cons (fun q hq => ?_) (ih h.1)
    obtain ⟨c, hc, hle⟩ := version_of_mem h.1 hq
    refine ⟨⟨c, []⟩, ⟨_, []⟩, ?_, ?_, .inl (Core.Le.trans_lt hle (newest_lt published p.range))⟩
    · rw [Published.Is, hc, SemVer.parse_core_text]
    · rw [Published.Is, h.2.2.1, SemVer.parse_core_text]

theorem exec_onto (h : Printed r.published) (events : List Event) :
    ∃ later, Onto r (Runs.exec step r events) later := by
  let Kept (s : Repo) : Prop := Printed s.published ∧ ∃ later, Onto r s later
  have hrun : Kept (Runs.exec step r events) :=
    Runs.exec_keeps (P := Kept)
      (fun s e _ hs => ⟨step_printed hs.1 e, hs.2.elim fun _ ho => step_onto hs.1 ho e⟩)
      ⟨h, [], onto_refl r⟩
  exact hrun.2

def line (text : String) : Message := ⟨text.toList, [text.toList]⟩

def beforeBuild : List Event :=
  [.push [line "chore: initial"], .release [], .push [line "fix(discovery): key on serial"]]

def afterBuild : List Event :=
  [.release [], .push [line "feat(allocator)!: add hysteresis"], .release []]

def built : Repo := Runs.exec step ⟨[], []⟩ beforeBuild

def branch : List Message := [line "feat(allocator)!: add hysteresis"]

def ended : Repo := Runs.exec step built afterBuild

end Wifucked.Release
