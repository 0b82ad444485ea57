import Mathlib.Data.List.MinMax

/-!
# What the first largest member of a list is like

`argmax` finds the first of the members with the largest value. It has a
property exactly where every member without it has one with it ahead.
-/

namespace Maximal

variable {α : Type u} {β : Type v} [LinearOrder β] (f : α → β)

/-- `c` is larger than `b`, or as large and first. -/
def Ahead (l : List α) (c b : α) : Prop :=
  f b < f c ∨ f b = f c ∧ ∃ before rest, l = before ++ c :: rest ∧ b ∉ before

variable {f} {l : List α} {P : α → Prop}

theorem split_of_argmax (h : l.argmax f = some m) :
    ∃ before rest, l = before ++ m :: rest ∧ ∀ a ∈ before, f a < f m := by
  induction l generalizing m with
  | nil => cases h
  | cons a l ih =>
    rw [List.argmax_cons] at h
    cases hl : l.argmax f with
    | none =>
      rw [hl] at h
      obtain rfl := Option.some.inj h
      exact ⟨[], l, rfl, by simp⟩
    | some c =>
      simp only [hl] at h
      split at h
      · rename_i hlt
        obtain rfl := Option.some.inj h
        obtain ⟨before, rest, rfl, hbefore⟩ := ih hl
        exact ⟨a :: before, rest, rfl, List.forall_mem_cons.mpr ⟨hlt, hbefore⟩⟩
      · obtain rfl := Option.some.inj h
        exact ⟨[], l, rfl, by simp⟩

/-- Nothing else is ahead of the first largest. -/
theorem eq_of_ahead_argmax (h : l.argmax f = some m) (hc : c ∈ l) (ha : Ahead f l c m) : c = m := by
  rcases ha with hlt | ⟨heq, before, rest, hl, hm⟩
  · exact absurd hlt (List.not_lt_of_mem_argmax hc h)
  · obtain ⟨before', rest', hl', hsmall⟩ := split_of_argmax h
    rcases List.append_eq_append_iff.mp (hl.symm.trans hl') with
      ⟨mid, hmid, hrest⟩ | ⟨mid, hmid, hrest⟩
    · cases mid with
      | nil => exact (List.cons.inj hrest).1
      | cons x mid =>
        obtain rfl := (List.cons.inj hrest).1
        exact absurd heq.symm (hsmall c (by simp [hmid])).ne
    · cases mid with
      | nil => exact (List.cons.inj hrest).1.symm
      | cons x mid =>
        obtain rfl := (List.cons.inj hrest).1
        exact absurd (by simp [hmid]) hm

theorem argmax_iff_ahead : (∀ m, l.argmax f = some m → P m) ↔
    ∀ b ∈ l, ¬P b → ∃ c ∈ l, P c ∧ Ahead f l c b := by
  constructor
  · intro h b hb hnot
    have hsome : l.argmax f ≠ none := mt List.argmax_eq_none.mp (List.ne_nil_of_mem hb)
    obtain ⟨m, hm⟩ := Option.ne_none_iff_exists'.mp hsome
    refine ⟨m, List.argmax_mem hm, h m hm, ?_⟩
    rcases (List.le_of_mem_argmax hb hm).lt_or_eq with hlt | heq
    · exact .inl hlt
    · obtain ⟨before, rest, hl, hsmall⟩ := split_of_argmax hm
      exact .inr ⟨heq, before, rest, hl, fun hmem => (hsmall b hmem).ne heq⟩
  · intro h m hm
    by_contra hnot
    obtain ⟨c, hc, hP, ha⟩ := h m (List.argmax_mem hm) hnot
    exact hnot (eq_of_ahead_argmax hm hc ha ▸ hP)

end Maximal
