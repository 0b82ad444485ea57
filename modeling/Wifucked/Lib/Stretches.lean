import Mathlib.Data.List.DropRight
import Mathlib.Data.List.Forall2
import Mathlib.Data.List.SplitBy

/-!
# Stretches of a list

The elements of a list that have a property fall into stretches, between others
that do not have it. A loop over the list collects them: those that are over,
and the one it is in.
-/

variable {α : Type u}

/-- Elements in a row that have a property, and no more of them on either side. -/
structure Stretch (p : α → Bool) (l before run after : List α) : Prop where
  split : l = before ++ run ++ after
  ne_nil : run ≠ []
  all : ∀ a ∈ run, p a = true
  left : ∀ a ∈ before.getLast?, p a = false
  right : ∀ a ∈ after.head?, p a = false

namespace Stretch

structure Collected (α : Type u) where
  closed : List (List α)
  /-- The stretch the loop is in, or nothing. -/
  current : List α

variable (p : α → Bool)

def collect (s : Collected α) (a : α) : Collected α :=
  if p a then { s with current := s.current ++ [a] }
  else
    match s.current with
    | [] => s
    | run => ⟨s.closed ++ [run], []⟩

def collected (l : List α) : Collected α := l.foldl (collect p) ⟨[], []⟩

variable {p} {l before run after : List α} {a : α}

theorem collected_concat (l : List α) (a : α) :
    collected p (l ++ [a]) = collect p (collected p l) a := by
  simp [collected]

theorem collect_of_pos (s : Collected α) (h : p a = true) :
    collect p s a = { s with current := s.current ++ [a] } := by
  simp [collect, h]

theorem collect_of_neg (s : Collected α) (h : p a = false) :
    collect p s a = ⟨s.closed ++ if s.current = [] then [] else [s.current], []⟩ := by
  rcases s with ⟨closed, current⟩
  cases current <;> simp [collect, h]

theorem flatten_collected (l : List α) :
    (collected p l).closed.flatten ++ (collected p l).current = l.filter p := by
  induction l using List.reverseRecOn with
  | nil => rfl
  | append_singleton l a ih =>
    rw [collected_concat, List.filter_append, ← ih]
    cases h : p a with
    | true => simp [collect_of_pos _ h, h]
    | false =>
      rw [collect_of_neg _ h]
      by_cases hcurrent : (collected p l).current = [] <;> simp [hcurrent, h]

theorem current_collected (l : List α) : (collected p l).current = l.rtakeWhile p := by
  induction l using List.reverseRecOn with
  | nil => rfl
  | append_singleton l a ih =>
    rw [collected_concat]
    cases h : p a with
    | true => rw [collect_of_pos _ h, List.rtakeWhile_concat_pos _ _ _ h, ih]
    | false => rw [collect_of_neg _ h, List.rtakeWhile_concat_neg _ _ _ (by simp [h])]

theorem getLast?_current (h : (collected p l).current ≠ []) :
    l.getLast? = (collected p l).current.getLast? := by
  rw [current_collected] at h ⊢
  obtain ⟨before, hbefore⟩ := List.rtakeWhile_suffix p l
  conv_lhs => rw [← hbefore]
  rw [List.getLast?_append_of_ne_nil _ h]

-- ---------------------------------------------------------------------------
-- What is collected
-- ---------------------------------------------------------------------------

theorem rtakeWhile_append (before : List α) (h : ∀ a ∈ run, p a = true) :
    (before ++ run).rtakeWhile p = before.rtakeWhile p ++ run := by
  induction run using List.reverseRecOn with
  | nil => simp
  | append_singleton run a ih =>
    have ha : p a = true := h a (by simp)
    rw [← List.append_assoc, List.rtakeWhile_concat_pos _ _ _ ha,
      ih fun b hb => h b (by simp [hb]), List.append_assoc]

/-- A stretch that nothing follows is the one the list ends with. -/
theorem run_eq_rtakeWhile (h : Stretch p l before run []) : run = l.rtakeWhile p := by
  have hbefore : before.rtakeWhile p = [] := by
    refine List.rtakeWhile_eq_nil_iff.mpr fun hne => ?_
    simp [h.left _ (List.getLast?_eq_some_getLast hne)]
  rw [h.split, List.append_nil, rtakeWhile_append before h.all, hbefore, List.nil_append]

theorem stretch_rtakeWhile (h : l.rtakeWhile p ≠ []) :
    Stretch p l (l.rdropWhile p) (l.rtakeWhile p) [] where
  split := by simp [List.rdropWhile_append_rtakeWhile]
  ne_nil := h
  all := fun _ => List.mem_rtakeWhile_imp
  left := by
    intro a ha
    obtain ⟨hne, rfl⟩ := List.mem_getLast?_eq_getLast ha
    simpa using List.rdropWhile_last_not p l hne
  right := by simp

theorem concat (h : Stretch p l before run after) (hafter : after ≠ [] ∨ p a = false) :
    Stretch p (l ++ [a]) before run (after ++ [a]) where
  split := by simp [h.split]
  ne_nil := h.ne_nil
  all := h.all
  left := h.left
  right := by
    cases after with
    | nil => simpa using hafter
    | cons b rest => exact h.right

/-- What is over before the last element was over without it, or ends there. -/
theorem of_concat (h : Stretch p (l ++ [a]) before run after) (hafter : after ≠ []) :
    ∃ rest, after = rest ++ [a] ∧ Stretch p l before run rest ∧ (rest ≠ [] ∨ p a = false) := by
  obtain ⟨rest, b, rfl⟩ := (List.eq_nil_or_concat' after).resolve_left hafter
  have hsplit := h.split
  rw [← List.append_assoc] at hsplit
  obtain ⟨hl, hab⟩ := List.append_inj' hsplit rfl
  obtain rfl : a = b := by simpa using hab
  refine ⟨rest, rfl, ⟨hl, h.ne_nil, h.all, h.left, ?_⟩, ?_⟩
  · cases rest with
    | nil => simp
    | cons b rest => exact h.right
  · cases rest with
    | nil => exact .inr (h.right a rfl)
    | cons b rest => exact .inl (by simp)

theorem mem_closed_iff : run ∈ (collected p l).closed ↔
    ∃ before after, Stretch p l before run after ∧ after ≠ [] := by
  induction l using List.reverseRecOn with
  | nil =>
    refine iff_of_false (by simp [collected]) ?_
    rintro ⟨before, after, h, -⟩
    simpa [h.ne_nil] using h.split
  | append_singleton l a ih =>
    rw [collected_concat]
    cases ha : p a with
    | true =>
      rw [collect_of_pos _ ha, ih]
      constructor
      · rintro ⟨before, after, h, hafter⟩
        exact ⟨before, after ++ [a], h.concat (.inl hafter), by simp⟩
      · rintro ⟨before, after, h, hafter⟩
        obtain ⟨rest, rfl, hrest, hne | hn⟩ := h.of_concat hafter
        · exact ⟨before, rest, hrest, hne⟩
        · simp [ha] at hn
    | false =>
      rw [collect_of_neg _ ha, List.mem_append, ih, current_collected]
      constructor
      · rintro (⟨before, after, h, hafter⟩ | h)
        · exact ⟨before, after ++ [a], h.concat (.inl hafter), by simp⟩
        · by_cases hcurrent : l.rtakeWhile p = []
          · simp [hcurrent] at h
          · obtain rfl : run = l.rtakeWhile p := by simpa [hcurrent] using h
            exact ⟨_, [a], (stretch_rtakeWhile hcurrent).concat (.inr ha), by simp⟩
      · rintro ⟨before, after, h, hafter⟩
        obtain ⟨rest, rfl, hrest, -⟩ := h.of_concat hafter
        cases rest with
        | nil =>
          have hrun := hrest.run_eq_rtakeWhile
          have hne : l.rtakeWhile p ≠ [] := hrun ▸ hrest.ne_nil
          exact .inr (by simp [hne, hrun])
        | cons b rest => exact .inl ⟨before, b :: rest, hrest, by simp⟩

theorem current_iff : ((collected p l).current = run ∧ run ≠ []) ↔
    ∃ before, Stretch p l before run [] := by
  rw [current_collected]
  constructor
  · rintro ⟨rfl, hne⟩
    exact ⟨_, stretch_rtakeWhile hne⟩
  · rintro ⟨before, h⟩
    exact ⟨h.run_eq_rtakeWhile.symm, h.ne_nil⟩

end Stretch

-- ---------------------------------------------------------------------------
-- Neighbours that go together
-- ---------------------------------------------------------------------------

namespace Stretch

variable {r : α → α → Bool} {l group : List α} {groups : List (List α)} {a b : α}

theorem splitBy_concat_of_pos (h : l.splitBy r = groups ++ [group ++ [b]]) (hab : r b a = true) :
    (l ++ [a]).splitBy r = groups ++ [group ++ [b, a]] := by
  obtain ⟨hflatten, hnil, hchain, hapart⟩ := List.splitBy_eq_iff.mp h
  have hlast : [b, a].IsChain fun x y => r x y := by simpa using hab
  refine List.splitBy_eq_iff.mpr ⟨?_, ?_, ?_, ?_⟩
  · rw [hflatten]
    simp
  · simp only [List.mem_append, not_or] at hnil ⊢
    exact ⟨hnil.1, by simp⟩
  · intro g hg
    rcases List.mem_append.mp hg with hg | hg
    · exact hchain g (List.mem_append_left _ hg)
    · obtain rfl := List.mem_singleton.mp hg
      have hgroup : (group ++ [b]).IsChain fun x y => r x y := hchain _ (by simp)
      rw [List.isChain_append] at hgroup ⊢
      exact ⟨hgroup.1, hlast, hgroup.2.2⟩
  · rw [List.isChain_append] at hapart ⊢
    refine ⟨hapart.1, by simp, fun x hx y hy => ?_⟩
    obtain rfl : group ++ [b, a] = y := by simpa using hy
    obtain ⟨hne, hne', happart⟩ := hapart.2.2 x hx (group ++ [b]) (by simp)
    refine ⟨hne, by simp, ?_⟩
    rw [← happart]
    congr 1
    cases group <;> rfl

theorem splitBy_concat_of_neg (hab : ∀ b ∈ l.getLast?, r b a = false) :
    (l ++ [a]).splitBy r = l.splitBy r ++ [[a]] :=
  List.splitBy_append_cons [] hab

theorem splitBy_eq_concat (r : α → α → Bool) (h : l.getLast? = some b) :
    ∃ groups group, l.splitBy r = groups ++ [group ++ [b]] := by
  obtain ⟨hne, hb⟩ := List.mem_getLast?_eq_getLast h
  obtain ⟨groups, last, hsplit⟩ :=
    (List.eq_nil_or_concat' (l.splitBy r)).resolve_left (List.splitBy_ne_nil.mpr hne)
  have hlast := List.getLast_getLast_splitBy r hne
  simp only [hsplit, List.getLast_append_singleton] at hlast
  have hlastne : last ≠ [] := List.ne_nil_of_mem_splitBy (r := r) (l := l) (by simp [hsplit])
  refine ⟨groups, last.dropLast, ?_⟩
  rw [hsplit, hb, ← hlast, List.dropLast_append_getLast hlastne]

end Stretch

-- ---------------------------------------------------------------------------
-- Lists side by side
-- ---------------------------------------------------------------------------

namespace List.Forall₂

variable {α : Type u} {β : Type v} {R : α → β → Prop} {S : α → α → Prop} {T : β → β → Prop}
  {l : List α} {l' : List β}

theorem exists_right (h : Forall₂ R l l') (ha : a ∈ l) : ∃ b ∈ l', R a b := by
  induction h with
  | nil => cases ha
  | cons hab _ ih =>
    rcases List.mem_cons.mp ha with rfl | ha
    · exact ⟨_, List.mem_cons_self, hab⟩
    · obtain ⟨b, hb, hr⟩ := ih ha
      exact ⟨b, List.mem_cons_of_mem _ hb, hr⟩

theorem exists_left (h : Forall₂ R l l') (hb : b ∈ l') : ∃ a ∈ l, R a b :=
  h.flip.exists_right hb

theorem pairwise (h : Forall₂ R l l') (hl : l.Pairwise S)
    (hstep : ∀ a b a' b', S a a' → R a b → R a' b' → T b b') : l'.Pairwise T := by
  induction h with
  | nil => exact .nil
  | cons hab hrest ih =>
    obtain ⟨hfirst, hl⟩ := List.pairwise_cons.mp hl
    refine List.pairwise_cons.mpr ⟨fun b' hb' => ?_, ih hl⟩
    obtain ⟨a', ha', hr⟩ := hrest.exists_left hb'
    exact hstep _ _ _ _ (hfirst a' ha') hab hr

theorem isChain (h : Forall₂ R l l') (hl : l.IsChain S)
    (hstep : ∀ a b a' b', S a a' → R a b → R a' b' → T b b') : l'.IsChain T := by
  induction h with
  | nil => exact .nil
  | cons hab hrest ih =>
    cases hrest with
    | nil => exact .singleton _
    | cons hcd hrest =>
      obtain ⟨hfirst, hl⟩ := List.isChain_cons_cons.mp hl
      exact List.isChain_cons_cons.mpr ⟨hstep _ _ _ _ hfirst hab hcd, ih hl⟩

end List.Forall₂
