import Mathlib.Data.List.Forall2

/-!
# Runs of a machine that inputs drive

A machine is a function from a state and an input to the next state. `exec`
is the state a run ends in, `log` its inputs with the states they led to,
`Along` a property of each of its steps. The rules below are the inductions on the
inputs that a proof about a run needs; each leaves one obligation a step.
-/

namespace Runs

variable {σ : Type u} {ι : Type v} (step : σ → ι → σ)

def exec (s : σ) (is : List ι) : σ := is.foldl step s

/-- The inputs of the run, each with the state it led to. -/
def log : σ → List ι → List (ι × σ)
  | _, [] => []
  | s, i :: is => (i, step s i) :: log (step s i) is

/-- `C` holds at every step of the run, of the state before it and its input. -/
def Along (C : σ → ι → Prop) : σ → List ι → Prop
  | _, [] => True
  | s, i :: is => C s i ∧ Along C (step s i) is

/-- The inputs that are left where those for which `idle` holds are not made. -/
def purge (idle : σ → ι → Prop) [∀ s i, Decidable (idle s i)] : σ → List ι → List ι
  | _, [] => []
  | s, i :: is => if idle s i then purge idle s is else i :: purge idle (step s i) is

@[simp] theorem exec_nil (s : σ) : exec step s [] = s := rfl

@[simp] theorem exec_cons (s : σ) (i : ι) (is : List ι) :
    exec step s (i :: is) = exec step (step s i) is := rfl

theorem exec_append (s : σ) (is js : List ι) :
    exec step s (is ++ js) = exec step (exec step s is) js := by
  simp [exec]

@[simp] theorem log_nil (s : σ) : log step s [] = [] := rfl

@[simp] theorem log_cons (s : σ) (i : ι) (is : List ι) :
    log step s (i :: is) = (i, step s i) :: log step (step s i) is := rfl

theorem map_fst_log (s : σ) (is : List ι) : (log step s is).map Prod.fst = is := by
  induction is generalizing s with
  | nil => rfl
  | cons i is ih => simp [ih]

@[simp] theorem along_nil (C : σ → ι → Prop) (s : σ) : Along step C s [] ↔ True := Iff.rfl

@[simp] theorem along_cons (C : σ → ι → Prop) (s : σ) (i : ι) (is : List ι) :
    Along step C s (i :: is) ↔ C s i ∧ Along step C (step s i) is := Iff.rfl

instance decidableAlong (C : σ → ι → Prop) [∀ s i, Decidable (C s i)] :
    ∀ (s : σ) (is : List ι), Decidable (Along step C s is)
  | _, [] => .isTrue trivial
  | s, i :: is =>
    have := decidableAlong C (step s i) is
    inferInstanceAs (Decidable (C s i ∧ Along step C (step s i) is))

variable {step} {C D : σ → ι → Prop} {Inv : σ → Prop} {s : σ} {is js : List ι}

theorem along_append :
    Along step C s (is ++ js) ↔ Along step C s is ∧ Along step C (exec step s is) js := by
  induction is generalizing s with
  | nil => simp
  | cons i is ih => simp [ih, and_assoc]

theorem along_iff_forall :
    Along step C s is ↔ ∀ pre i post, is = pre ++ i :: post → C (exec step s pre) i := by
  constructor
  · rintro h pre i post rfl
    exact (along_append.mp h).2.1
  · intro h
    induction is generalizing s with
    | nil => trivial
    | cons i is ih =>
      refine ⟨h [] i is rfl, ih fun pre j post he => ?_⟩
      rw [← exec_cons]
      exact h (i :: pre) j post (by rw [he, List.cons_append])

theorem exec_of_along {P : σ → Prop} (hstep : ∀ s, ∀ i ∈ is, P s → C s i → P (step s i))
    (h : Along step C s is) (hs : P s) : P (exec step s is) := by
  induction is generalizing s with
  | nil => exact hs
  | cons i is ih =>
    exact ih (fun s j hj => hstep s j (List.mem_cons_of_mem _ hj)) h.2
      (hstep s i List.mem_cons_self hs h.1)

/-- Two properties of a step that an invariant makes equivalent are
equivalent along a run; the invariant may rest on the first, and both on the
kind of the inputs. -/
theorem along_iff_of {A : ι → Prop} (hstep : ∀ s i, A i → Inv s → C s i → Inv (step s i))
    (hiff : ∀ s i, A i → Inv s → (C s i ↔ D s i)) (hs : Inv s) (ha : ∀ i ∈ is, A i) :
    Along step C s is ↔ Along step D s is := by
  induction is generalizing s with
  | nil => simp
  | cons i is ih =>
    obtain ⟨hi, ha⟩ := List.forall_mem_cons.mp ha
    rw [along_cons, along_cons, ← hiff s i hi hs]
    constructor
    · rintro ⟨hc, h⟩
      exact ⟨hc, (ih (hstep s i hi hs hc) ha).mp h⟩
    · rintro ⟨hc, h⟩
      exact ⟨hc, (ih (hstep s i hi hs hc) ha).mpr h⟩

theorem along_iff (hstep : ∀ s i, Inv s → C s i → Inv (step s i))
    (hiff : ∀ s i, Inv s → (C s i ↔ D s i)) (hs : Inv s) :
    Along step C s is ↔ Along step D s is :=
  along_iff_of (A := fun _ => True) (fun s i _ => hstep s i) (fun s i _ => hiff s i) hs
    fun _ _ => trivial

theorem along_congr (h : ∀ s i, C s i ↔ D s i) : Along step C s is ↔ Along step D s is := by
  have hCD : C = D := funext fun s => funext fun i => propext (h s i)
  rw [hCD]

theorem along_of (hstep : ∀ s i, Inv s → C s i → Inv (step s i) ∧ D s i) (hs : Inv s)
    (h : Along step C s is) : Along step D s is := by
  induction is generalizing s with
  | nil => trivial
  | cons i is ih =>
    obtain ⟨hinv, hd⟩ := hstep s i hs h.1
    exact ⟨hd, ih hinv h.2⟩

theorem exec_purge {idle : σ → ι → Prop} [∀ s i, Decidable (idle s i)]
    (hkeep : ∀ s, ∀ i ∈ is, Inv s → Inv (step s i))
    (hidle : ∀ s i, Inv s → idle s i → step s i = s) (hs : Inv s) :
    exec step s (purge step idle s is) = exec step s is := by
  induction is generalizing s with
  | nil => rfl
  | cons i is ih =>
    have hrest := fun s j hj => hkeep s j (List.mem_cons_of_mem i hj)
    rw [purge, exec_cons]
    split
    · rename_i hi
      rw [hidle s i hs hi]
      exact ih hrest hs
    · exact ih hrest (hkeep s i List.mem_cons_self hs)

theorem log_inv (Inv : σ → Prop) {A : ι → Prop}
    (hstep : ∀ s i, Inv s → A i → Inv (step s i)) (hs : Inv s) (ha : ∀ i ∈ is, A i) :
    ∀ d ∈ log step s is, A d.1 ∧ ∃ t, Inv t ∧ d.2 = step t d.1 := by
  induction is generalizing s with
  | nil => intro d hd; cases hd
  | cons i is ih =>
    obtain ⟨hi, his⟩ := List.forall_mem_cons.mp ha
    intro d hd
    rcases List.mem_cons.mp hd with rfl | hd
    · exact ⟨hi, s, hs, rfl⟩
    · exact ih (hstep s i hs hi) his d hd

theorem mem_log (h : d ∈ log step s is) : ∃ t, d.2 = step t d.1 := by
  obtain ⟨-, t, -, ht⟩ :=
    log_inv (fun _ => True) (A := fun _ => True) (fun _ _ _ _ => trivial) trivial
      (fun _ _ => trivial) d h
  exact ⟨t, ht⟩

theorem log_forall₂ {τ : Type w} {κ : Type x} {step' : τ → κ → τ} {t : τ} {ks : List κ}
    (R : σ → τ → Prop) {S : ι → κ → Prop} {Q : ι × σ → κ × τ → Prop}
    (hstep : ∀ s t i j, R s t → S i j →
      R (step s i) (step' t j) ∧ Q (i, step s i) (j, step' t j))
    (hst : R s t) (h : List.Forall₂ S is ks) :
    List.Forall₂ Q (log step s is) (log step' t ks) := by
  induction h generalizing s t with
  | nil => exact .nil
  | cons hij _ ih =>
    obtain ⟨hr, hq⟩ := hstep _ _ _ _ hst hij
    exact .cons hq (ih hr)

/-- Where an invariant rests on `C` at each step and gives `P`, and a step that
leaves `P` is one at which `C` held, `P` holds all along a run exactly where `C` does. -/
theorem holds_iff_along {P : σ → Prop} (hkeep : ∀ s i, Inv s → C s i → Inv (step s i))
    (hinv : ∀ s, Inv s → P s) (hback : ∀ s i, Inv s → P (step s i) → C s i) (hs : Inv s) :
    (∀ pre, pre <+: is → P (exec step s pre)) ↔ Along step C s is := by
  induction is generalizing s with
  | nil => simpa using hinv s hs
  | cons i is ih =>
    constructor
    · intro h
      have hc : C s i := hback s i hs (h [i] (by simp))
      exact ⟨hc, (ih (hkeep s i hs hc)).mp fun pre hpre => h (i :: pre) (by simpa using hpre)⟩
    · rintro ⟨hc, h⟩ pre hpre
      cases pre with
      | nil => exact hinv s hs
      | cons j pre =>
        obtain ⟨rfl, hrest⟩ := List.cons_prefix_cons.mp hpre
        exact (ih (hkeep s j hs hc)).mpr h pre hrest

-- ---------------------------------------------------------------------------
-- What a run leaves behind
-- ---------------------------------------------------------------------------

/-- What every input of a run keeps holds after it. -/
theorem exec_keeps {P : σ → Prop} (hkeep : ∀ s, ∀ i ∈ is, P s → P (step s i)) (hs : P s) :
    P (exec step s is) := by
  induction is generalizing s with
  | nil => exact hs
  | cons i is ih =>
    exact ih (fun s j hj => hkeep s j (List.mem_cons_of_mem _ hj)) (hkeep s i List.mem_cons_self hs)

theorem exec_establishes {P : σ → Prop} (hkeep : ∀ s, ∀ i ∈ is, P s → P (step s i)) (hi : i ∈ is)
    (hset : ∀ s, P (step s i)) : P (exec step s is) := by
  obtain ⟨pre, post, rfl⟩ := List.append_of_mem hi
  rw [exec_append, exec_cons]
  exact exec_keeps (fun s j hj => hkeep s j (by simp [hj])) (hset _)

theorem map_exec {τ : Type w} {small : τ → ι → τ} (f : σ → τ)
    (h : ∀ s i, f (step s i) = small (f s) i) : f (exec step s is) = exec small (f s) is := by
  induction is generalizing s with
  | nil => rfl
  | cons i is ih => rw [exec_cons, ih, h, exec_cons]

theorem along_map {τ : Type w} {small : τ → ι → τ} {C : τ → ι → Prop} (f : σ → τ)
    (h : ∀ s i, f (step s i) = small (f s) i) :
    Along step (fun s i => C (f s) i) s is ↔ Along small C (f s) is := by
  induction is generalizing s with
  | nil => exact Iff.rfl
  | cons i is ih => rw [along_cons, along_cons, ih, h]

/-- An observation that each input overwrites or leaves alone is the last one written. -/
theorem obs_exec {α : Type w} (obs : σ → α) (writes : ι → Option α)
    (h : ∀ s i, obs (step s i) = (writes i).getD (obs s)) :
    obs (exec step s is) = (is.filterMap writes).getLast?.getD (obs s) := by
  induction is generalizing s with
  | nil => rfl
  | cons i is ih =>
    rw [exec_cons, ih, h]
    cases hw : writes i with
    | none => rw [List.filterMap_cons_none hw, Option.getD_none]
    | some a =>
      rw [List.filterMap_cons_some hw, List.getLast?_cons, Option.getD_some, Option.getD_some]

theorem obs_exec_eq {α : Type w} (obs : σ → α) (writes : ι → Option α) {a : α}
    (h : ∀ s i, obs (step s i) = (writes i).getD (obs s)) (hi : i ∈ is) (hw : writes i = some a)
    (hagree : ∀ j ∈ is, ∀ b, writes j = some b → b = a) : obs (exec step s is) = a := by
  have hmem : a ∈ is.filterMap writes := List.mem_filterMap.mpr ⟨i, hi, hw⟩
  rw [obs_exec obs writes h]
  cases hl : (is.filterMap writes).getLast? with
  | none => rw [List.getLast?_eq_none_iff.mp hl] at hmem; cases hmem
  | some b =>
    obtain ⟨j, hj, hwj⟩ := List.mem_filterMap.mp (List.mem_of_getLast? hl)
    exact hagree j hj b hwj

end Runs
