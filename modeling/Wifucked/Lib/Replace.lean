import Mathlib.Data.Nat.Notation
import Mathlib.Logic.Function.Basic
import Mathlib.Order.Lattice

/-!
# Replacing a file by renaming another one over it

A directory with two names, `tmp` and `final`, of files that are known by a number.
A writer keeps the file that it opened, whatever the name comes to stand for
after that, and what it writes goes over what is there from the start on.
-/

/-- A text of some length, and what it is the whole text of, if anything. -/
structure Contents (α : Type u) where
  length : ℕ
  whole : Option α

structure Directory (α : Type u) where
  tmp : Option ℕ
  final : Option ℕ
  contents : ℕ → Contents α
  next : ℕ

namespace Directory

variable {α : Type u} (size : α → ℕ)

def read (d : Directory α) : Option (Contents α) := d.final.map d.contents

/-- For writing: the file is emptied, or created. -/
def openTmp (d : Directory α) : Directory α × ℕ :=
  let i := d.tmp.getD d.next
  ({ d with
      tmp := some i
      contents := Function.update d.contents i ⟨0, none⟩
      next := max d.next (i + 1) }, i)

/-- A shorter text leaves the end of a longer one behind it. -/
def write (d : Directory α) (i : ℕ) (a : α) : Directory α :=
  { d with
    contents := Function.update d.contents i
      (if (d.contents i).length ≤ size a then ⟨size a, some a⟩
      else ⟨(d.contents i).length, none⟩) }

/-- A write that fails leaves some of a text, or leaves the file as it is. -/
def spoil (d : Directory α) (i : ℕ) (left : Option ℕ) : Directory α :=
  match left with
  | none => d
  | some n => { d with contents := Function.update d.contents i ⟨n, none⟩ }

/-- `none` where there is no file of that name. -/
def rename (d : Directory α) : Option (Directory α) :=
  d.tmp.map fun i => { d with tmp := none, final := some i }

/-- Two names are not of one file, and new files are new. -/
structure Apart (d : Directory α) : Prop where
  tmp_lt : ∀ i, d.tmp = some i → i < d.next
  final_lt : ∀ i, d.final = some i → i < d.next
  ne : ∀ i, d.tmp = some i → d.final ≠ some i

/-- `i` is the temporary file, and nothing else. -/
structure Holds (d : Directory α) (i : ℕ) (c : Contents α) : Prop where
  tmp : d.tmp = some i
  contents : d.contents i = c
  final : d.final ≠ some i

/-- What the two names stand for at the start. -/
def start (tmp final : Option (Contents α)) : Directory α where
  tmp := tmp.map fun _ => 1
  final := final.map fun _ => 0
  contents := fun i => if i = 0 then final.getD ⟨0, none⟩ else tmp.getD ⟨0, none⟩
  next := 2

variable {size}

theorem read_start (tmp final : Option (Contents α)) : (start tmp final).read = final := by
  cases final <;> rfl

theorem apart_start (tmp final : Option (Contents α)) : (start tmp final).Apart where
  tmp_lt := by
    intro i hi
    obtain ⟨-, -, rfl⟩ := Option.map_eq_some_iff.mp hi
    exact Nat.lt_succ_self 1
  final_lt := by
    intro i hi
    obtain ⟨-, -, rfl⟩ := Option.map_eq_some_iff.mp hi
    exact Nat.zero_lt_two
  ne := by
    intro i hi hf
    obtain ⟨-, -, rfl⟩ := Option.map_eq_some_iff.mp hi
    obtain ⟨-, -, h⟩ := Option.map_eq_some_iff.mp hf
    cases h

theorem read_update {d : Directory α} (h : d.final ≠ some i) (c : Contents α) :
    read { d with contents := Function.update d.contents i c } = d.read := by
  unfold read
  cases hf : d.final with
  | none => rfl
  | some j =>
    have hj : j ≠ i := by
      rintro rfl
      exact h hf
    simp [hj]

theorem Apart.final_ne_openTmp {d : Directory α} (h : d.Apart) : d.final ≠ some d.openTmp.2 := by
  simp only [openTmp]
  cases ht : d.tmp with
  | some i => exact h.ne i ht
  | none =>
    intro hf
    exact absurd (h.final_lt _ hf) (lt_irrefl _)

theorem Apart.openTmp {d : Directory α} (h : d.Apart) :
    d.openTmp.1.Apart ∧ d.openTmp.1.Holds d.openTmp.2 ⟨0, none⟩ ∧
      d.openTmp.1.read = d.read := by
  have hne := h.final_ne_openTmp
  refine ⟨⟨?_, ?_, ?_⟩, ⟨rfl, by simp [Directory.openTmp], hne⟩, read_update hne _⟩
  · intro i hi
    obtain rfl := Option.some.inj hi
    exact lt_of_lt_of_le (Nat.lt_succ_self _) (le_max_right _ _)
  · intro i hi
    exact lt_of_lt_of_le (h.final_lt i hi) (le_max_left _ _)
  · intro i hi
    obtain rfl := Option.some.inj hi
    exact hne

theorem Apart.write {d : Directory α} (h : d.Apart) (i : ℕ) (a : α) : (d.write size i a).Apart :=
  ⟨h.tmp_lt, h.final_lt, h.ne⟩

theorem Holds.write {d : Directory α} (h : d.Holds i ⟨0, none⟩) (size : α → ℕ) (a : α) :
    (d.write size i a).Holds i ⟨size a, some a⟩ ∧ (d.write size i a).read = d.read :=
  ⟨⟨h.tmp, by simp [Directory.write, h.contents], h.final⟩, read_update h.final _⟩

theorem Holds.rename {d : Directory α} (h : d.Holds i c) :
    d.rename = some { d with tmp := none, final := some i } := by
  simp [Directory.rename, h.tmp]

theorem Holds.read_rename {d : Directory α} (h : d.Holds i c) :
    ({ d with tmp := none, final := some i } : Directory α).read = some c := by
  simp [read, h.contents]

theorem Apart.rename {d : Directory α} (h : d.Apart) (hi : d.tmp = some i) :
    ({ d with tmp := none, final := some i } : Directory α).Apart where
  tmp_lt := fun _ hj => by cases hj
  final_lt := by
    intro j hj
    obtain rfl := Option.some.inj hj
    exact h.tmp_lt _ hi
  ne := fun _ hj => by cases hj

end Directory
