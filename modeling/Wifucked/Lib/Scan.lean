import Mathlib.Data.List.Infix
import Mathlib.Data.List.TakeWhile

/-!
# Searching a text

A pattern says of a text whether it matches at its start, and what it finds
there. A text is searched at its start and from each of its places on; the last
match is the one after which there is no other.
-/

namespace Scan

variable {α : Type u} {β : Type v} {f : List α → Option β} {t : List α} {b : β}

def last (f : List α → Option β) (t : List α) : Option β := (t.tails.filterMap f).getLast?

theorem last_cons (c : α) (t : List α) : last f (c :: t) = (last f t).or (f (c :: t)) := by
  unfold last
  rw [List.tails_cons, List.filterMap_cons]
  cases f (c :: t) with
  | none => simp
  | some b =>
    rw [List.getLast?_cons]
    cases (List.filterMap f t.tails).getLast? <;> rfl

theorem last_eq_none : last f t = none ↔ ∀ s, s <:+ t → f s = none := by
  simp [last]

theorem last_eq_some : last f t = some b ↔
    ∃ s, s <:+ t ∧ f s = some b ∧ ∀ later, later <:+ s → later ≠ s → f later = none := by
  induction t with
  | nil => simp [last]
  | cons c t ih =>
    rw [last_cons]
    constructor
    · intro h
      rcases Option.or_eq_some_iff.mp h with h | ⟨hnone, h⟩
      · obtain ⟨s, hs, hb, hlater⟩ := ih.mp h
        exact ⟨s, hs.trans (List.suffix_cons c t), hb, hlater⟩
      · refine ⟨c :: t, List.suffix_rfl, h, fun later hsuffix hne => ?_⟩
        exact last_eq_none.mp hnone later ((List.suffix_cons_iff.mp hsuffix).resolve_left hne)
    · rintro ⟨s, hs, hb, hlater⟩
      rcases List.suffix_cons_iff.mp hs with rfl | hs
      · have hnone : last f t = none := last_eq_none.mpr fun later hsuffix =>
          hlater later (hsuffix.trans (List.suffix_cons c t)) fun heq => by
            have hlen := hsuffix.length_le
            rw [heq, List.length_cons] at hlen
            omega
        rw [hnone, hb]
        rfl
      · rw [ih.mpr ⟨s, hs, hb, hlater⟩]
        rfl

-- ---------------------------------------------------------------------------
-- Runs of characters
-- ---------------------------------------------------------------------------

variable {p : α → Bool} {rest : List α}

/-- A run is as long as it can be where no character of its kind is next. -/
def Ends (p : α → Bool) (rest : List α) : Prop := ∀ c ∈ rest.head?, ¬p c

theorem ends_dropWhile (p : α → Bool) (t : List α) : Ends p (t.dropWhile p) := by
  intro c hc
  have hnot := List.head?_dropWhile_not p t
  rw [Option.mem_def.mp hc] at hnot
  simpa using hnot

theorem dropWhile_of_ends (h : Ends p rest) : rest.dropWhile p = rest := by
  cases rest with
  | nil => rfl
  | cons c rest => exact List.dropWhile_cons_of_neg (h c rfl)

theorem takeWhile_of_ends (h : Ends p rest) : rest.takeWhile p = [] := by
  cases rest with
  | nil => rfl
  | cons c rest => exact List.takeWhile_cons_of_neg (h c rfl)

theorem dropWhile_eq_iff : t.dropWhile p = rest ↔
    Ends p rest ∧ ∃ run, t = run ++ rest ∧ ∀ c ∈ run, p c := by
  constructor
  · rintro rfl
    exact ⟨ends_dropWhile p t, t.takeWhile p, (List.takeWhile_append_dropWhile).symm,
      fun _ => List.mem_takeWhile_imp⟩
  · rintro ⟨hends, run, rfl, hrun⟩
    rw [List.dropWhile_append_of_pos hrun, dropWhile_of_ends hends]

theorem takeWhile_append_ends {run : List α} (hrun : ∀ c ∈ run, p c) (h : Ends p rest) :
    (run ++ rest).takeWhile p = run := by
  rw [List.takeWhile_append_of_pos hrun, takeWhile_of_ends h, List.append_nil]

-- ---------------------------------------------------------------------------
-- Cuts
-- ---------------------------------------------------------------------------

variable [DecidableEq α] {c : α} {l s t m : List α}

private theorem ends_cons (c : α) (t : List α) : Ends (· ≠ c) (c :: t) := by simp [Ends]

private theorem ne_of_not_mem (h : c ∉ s) : ∀ d ∈ s, decide (d ≠ c) = true :=
  fun _ hd => decide_eq_true fun he => h (he ▸ hd)

theorem takeWhile_ne_append (h : c ∉ s) (t : List α) : (s ++ c :: t).takeWhile (· ≠ c) = s :=
  takeWhile_append_ends (ne_of_not_mem h) (ends_cons c t)

theorem dropWhile_ne_append (h : c ∉ s) (t : List α) :
    (s ++ c :: t).dropWhile (· ≠ c) = c :: t :=
  dropWhile_eq_iff.mpr ⟨ends_cons c t, s, rfl, ne_of_not_mem h⟩

theorem append_cons_inj (hs : c ∉ s) (ht : c ∉ t) : s ++ c :: l = t ++ c :: m ↔ s = t ∧ l = m := by
  constructor
  · intro h
    have htake : s = t := by
      rw [← takeWhile_ne_append hs l, h, takeWhile_ne_append ht]
    have hdrop : c :: l = c :: m := by
      rw [← dropWhile_ne_append hs l, h, dropWhile_ne_append ht]
    exact ⟨htake, (List.cons.inj hdrop).2⟩
  · rintro ⟨rfl, rfl⟩
    rfl

end Scan
