import Mathlib.Data.List.DropRight

/-!
# A journal that numbers what it takes in and keeps the newest

Rows are numbered one after the other over everything that was ever inserted.
Retention goes by the numbers alone: a row that lies `keep` or more behind the
largest is deleted. What is left is always an end of what was inserted.
-/

structure Row (ρ : Type u) where
  id : ℕ
  values : ρ
  deriving DecidableEq

structure Journal (ρ : Type u) where
  rows : List (Row ρ)
  /-- The last number given. -/
  seq : ℕ

namespace Journal

variable {ρ : Type u} {n m : ℕ} {keep : ℤ} {written rs : List ρ} {j : Journal ρ}

def empty : Journal ρ := ⟨[], 0⟩

def numbered : ℕ → List ρ → List (Row ρ)
  | _, [] => []
  | n, r :: rs => ⟨n + 1, r⟩ :: numbered (n + 1) rs

def insert (j : Journal ρ) (rs : List ρ) : Journal ρ where
  rows := j.rows ++ numbered j.seq rs
  seq := j.seq + rs.length

/-- `MAX(id)`, which is `NULL` where there are no rows. -/
def maxId (j : Journal ρ) : Option ℕ := (j.rows.map (·.id)).max?

/-- `DELETE … WHERE id <= MAX(id) - keep`. -/
def trim (j : Journal ρ) (keep : ℤ) : Journal ρ :=
  match j.maxId with
  | none => j
  | some id => { j with rows := j.rows.filter fun r => (id : ℤ) - keep < r.id }

-- ---------------------------------------------------------------------------
-- Numbers
-- ---------------------------------------------------------------------------

@[simp] theorem numbered_nil (n : ℕ) : numbered n ([] : List ρ) = [] := rfl

@[simp] theorem map_values_numbered (n : ℕ) (rs : List ρ) :
    (numbered n rs).map (·.values) = rs := by
  induction rs generalizing n with
  | nil => rfl
  | cons r rs ih => simp [numbered, ih]

theorem numbered_append (n : ℕ) (rs ss : List ρ) :
    numbered n (rs ++ ss) = numbered n rs ++ numbered (n + rs.length) ss := by
  induction rs generalizing n with
  | nil => rfl
  | cons r rs ih => simp [numbered, ih, Nat.add_assoc, Nat.add_comm 1]

theorem drop_numbered (n m : ℕ) (rs : List ρ) :
    (numbered n rs).drop m = numbered (n + m) (rs.drop m) := by
  induction rs generalizing n m with
  | nil => simp
  | cons r rs ih =>
    cases m with
    | zero => rfl
    | succ m => simp [numbered, ih, Nat.add_assoc, Nat.add_comm 1]

theorem max?_numbered (n : ℕ) (r : ρ) (rs : List ρ) :
    ((numbered n (r :: rs)).map (·.id)).max? = some (n + 1 + rs.length) := by
  induction rs generalizing n r with
  | nil => rfl
  | cons s rs ih =>
    have hrest := ih (n + 1) s
    rw [numbered, List.map_cons, List.max?_cons, hrest]
    simp only [Option.elim_some, List.length_cons, Option.some.injEq]
    omega

theorem filter_numbered (n : ℕ) (rs : List ρ) (bound : ℤ) :
    ((numbered n rs).filter fun r => bound < r.id) = (numbered n rs).drop (bound - n).toNat := by
  induction rs generalizing n with
  | nil => simp
  | cons r rs ih =>
    rw [numbered, List.filter_cons, ih (n + 1)]
    by_cases h : bound < (n + 1 : ℕ)
    · have hzero : (bound - n).toNat = 0 := by omega
      have hrest : (bound - (n + 1 : ℕ)).toNat = 0 := by omega
      rw [if_pos (by simpa using h), hzero, hrest, List.drop_zero, List.drop_zero]
    · have hsucc : (bound - n).toNat = (bound - (n + 1 : ℕ)).toNat + 1 := by omega
      rw [if_neg (by simpa using h), hsucc, List.drop_succ_cons]

-- ---------------------------------------------------------------------------
-- Retention
-- ---------------------------------------------------------------------------

/-- Everything ever inserted, in order; some of what the next trim would delete
may be gone already. -/
structure Holds (keep : ℤ) (written : List ρ) (j : Journal ρ) : Prop where
  seq : j.seq = written.length
  rows : ∃ m ≤ written.length - keep.toNat, j.rows = (numbered 0 written).drop m

/-- Nothing but the newest rows is left. -/
structure Newest (keep : ℤ) (written : List ρ) (j : Journal ρ) : Prop where
  rows : j.rows.map (·.values) = written.rtake keep.toNat
  bounded : j.rows.length ≤ keep.toNat

theorem holds_empty : (empty : Journal ρ).Holds keep [] := ⟨rfl, 0, Nat.zero_le _, rfl⟩

theorem holds_insert (h : j.Holds keep written) (rs : List ρ) :
    (j.insert rs).Holds keep (written ++ rs) := by
  obtain ⟨hseq, m, hm, hrows⟩ := h
  refine ⟨by simp [insert, hseq], m, ?_, ?_⟩
  · rw [List.length_append]
    omega
  · have hle : m ≤ (numbered 0 written).length := by
      rw [← List.length_map (·.values), map_values_numbered]
      omega
    rw [numbered_append, List.drop_append_of_le_length hle, Nat.zero_add]
    simp [insert, hrows, hseq]

theorem rows_trim (h : j.Holds keep written) :
    (j.trim keep).rows = (numbered 0 written).drop (written.length - keep.toNat) := by
  obtain ⟨-, m, hm, hrows⟩ := h
  rw [drop_numbered, Nat.zero_add] at hrows ⊢
  unfold trim maxId
  rw [hrows]
  cases hleft : written.drop m with
  | nil =>
    have hnone : written.drop (written.length - keep.toNat) = [] := by
      rw [List.drop_eq_nil_iff] at hleft ⊢
      omega
    simp [hleft, hnone, hrows]
  | cons r rs =>
    have hlength : m + (r :: rs).length = written.length := by
      have hlen := congrArg List.length hleft
      simp only [List.length_drop, List.length_cons] at hlen ⊢
      omega
    have hmax : m + 1 + rs.length = written.length := by
      simp only [List.length_cons] at hlength
      omega
    rw [max?_numbered, hmax]
    simp only
    rw [filter_numbered, ← hleft, drop_numbered, List.drop_drop]
    rcases Int.le_total 0 keep with hkeep | hkeep
    · have hindex : m + ((written.length : ℤ) - keep - m).toNat = written.length - keep.toNat := by
        omega
      rw [hindex]
    · have hall : written.length ≤ m + ((written.length : ℤ) - keep - m).toNat := by omega
      have hzero : written.length - keep.toNat = written.length := by omega
      rw [hzero, List.drop_of_length_le hall, List.drop_length]
      rfl

theorem holds_trim (h : j.Holds keep written) : (j.trim keep).Holds keep written where
  seq := by
    rw [← h.seq]
    unfold trim
    split <;> rfl
  rows := ⟨_, le_refl _, rows_trim h⟩

theorem newest_trim (h : j.Holds keep written) : (j.trim keep).Newest keep written := by
  have hrows : (j.trim keep).rows.map (·.values) = written.rtake keep.toNat := by
    rw [rows_trim h, List.map_drop, map_values_numbered, List.rtake]
  refine ⟨hrows, ?_⟩
  have hlength := congrArg List.length hrows
  rw [List.length_map, List.rtake, List.length_drop] at hlength
  omega

end Journal
