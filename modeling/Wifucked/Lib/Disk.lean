import Mathlib.Logic.Function.Basic
import Wifucked.Lib.Runs

/-!
# Files that scripts write

A disk has a text at some of its paths. A script is a list of operations that
are each done whole or not at all, and a power cut leaves what those before it
did.
-/

abbrev Disk (π : Type u) := π → Option String

namespace Disk

theorem mem_take_concat {α : Type u} {a b : α} {l : List α} (h : a ∉ l) (n : ℕ) :
    a ∈ (l ++ [b]).take n ↔ a = b ∧ l.length < n := by
  rw [List.take_append, List.mem_append]
  constructor
  · rintro (ha | ha)
    · exact absurd (List.mem_of_mem_take ha) h
    · refine ⟨List.mem_singleton.mp (List.mem_of_mem_take ha), ?_⟩
      by_contra hle
      simp [Nat.sub_eq_zero_of_le (Nat.not_lt.mp hle)] at ha
  · rintro ⟨rfl, hlt⟩
    have hone : [a].take (n - l.length) = [a] := List.take_of_length_le (Nat.sub_pos_of_lt hlt)
    rw [hone]
    exact .inr (List.mem_singleton_self a)

variable {π : Type u}

inductive Op (π : Type u) where
  | write (path : π) (text : String)
  | remove (path : π)
  deriving DecidableEq

def Op.path : Op π → π
  | .write path _ => path
  | .remove path => path

variable [DecidableEq π]

def apply (d : Disk π) : Op π → Disk π
  | .write path text => Function.update d path (some text)
  | .remove path => Function.update d path none

def run (d : Disk π) (ops : List (Op π)) : Disk π := Runs.exec apply d ops

variable {d : Disk π} {op : Op π} {ops : List (Op π)} {p : π}

@[simp] theorem run_nil (d : Disk π) : run d [] = d := rfl

@[simp] theorem run_cons (d : Disk π) (op : Op π) (ops : List (Op π)) :
    run d (op :: ops) = run (apply d op) ops := rfl

theorem run_append (d : Disk π) (ops more : List (Op π)) :
    run d (ops ++ more) = run (run d ops) more := Runs.exec_append _ _ _ _

theorem apply_other (h : op.path ≠ p) : apply d op p = d p := by
  cases op <;> exact Function.update_of_ne (Ne.symm h) _ _

@[simp] theorem apply_write_self (d : Disk π) (p : π) (text : String) :
    apply d (.write p text) p = some text := Function.update_self _ _ _

@[simp] theorem apply_remove_self (d : Disk π) (p : π) : apply d (.remove p) p = none :=
  Function.update_self _ _ _

theorem run_other (h : ∀ op ∈ ops, op.path ≠ p) : run d ops p = d p :=
  Runs.exec_keeps (P := fun d' : Disk π => d' p = d p)
    (fun _ op hop hd => (apply_other (h op hop)).trans hd) rfl

theorem run_removes (h : ∀ op ∈ ops, op.path = p → op = .remove p) :
    run d ops p = if .remove p ∈ ops then none else d p := by
  induction ops generalizing d with
  | nil => simp
  | cons op ops ih =>
    obtain ⟨hop, h⟩ := List.forall_mem_cons.mp h
    rw [run_cons, ih h]
    by_cases hpath : op.path = p
    · obtain rfl := hop hpath
      simp
    · have hne : .remove p ≠ op := fun heq => hpath (heq ▸ rfl)
      simp [apply_other hpath, hne]

end Disk
