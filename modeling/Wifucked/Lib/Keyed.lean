import Mathlib.Algebra.GroupWithZero.Nat
import Mathlib.Data.List.Nodup
import Mathlib.Data.List.Lex

/-!
# Insertion-ordered stores keyed by their values

A `Keyed α key` holds at most one value for each key, in the order in which
the keys first came in, which is how a dictionary whose keys are read off its
values behaves when it is listed. Replacing a value keeps its place.
-/

/-- At most one value a key; the keys are read off the values. -/
structure Keyed {κ : Type v} (α : Type u) (key : α → κ) where
  values : List α
  nodup : (values.map key).Nodup

namespace Keyed

variable {α : Type u} {β : Type w} {κ : Type v} [DecidableEq κ] {key : α → κ} {key' : β → κ}

def empty : Keyed α key := ⟨[], by simp⟩

def get? (d : Keyed α key) (k : κ) : Option α := d.values.find? fun a => key a = k

theorem get?_eq_some {d : Keyed α key} : d.get? k = some a ↔ a ∈ d.values ∧ key a = k := by
  constructor
  · intro h
    exact ⟨List.mem_of_find?_eq_some h, by simpa using List.find?_some h⟩
  · rintro ⟨hm, rfl⟩
    cases hf : d.get? (key a) with
    | none =>
      have hn := List.find?_eq_none.mp hf a hm
      simp at hn
    | some b =>
      have hb : key b = key a := by simpa using List.find?_some hf
      rw [List.inj_on_of_nodup_map d.nodup (List.mem_of_find?_eq_some hf) hm hb]

theorem mem_values {d : Keyed α key} : a ∈ d.values ↔ d.get? (key a) = some a := by
  simp [get?_eq_some]

theorem key_of_get? {d : Keyed α key} (h : d.get? k = some a) : key a = k := (get?_eq_some.mp h).2

theorem get?_of_mem_iff {d d' : Keyed α key} (h : ∀ a, a ∈ d.values ↔ a ∈ d'.values) (k : κ) :
    d.get? k = d'.get? k :=
  Option.ext fun a => by simp only [get?_eq_some, h]

@[simp] theorem get?_empty (k : κ) : (empty : Keyed α key).get? k = none := rfl

-- ---------------------------------------------------------------------------
-- Writing one value
-- ---------------------------------------------------------------------------

/-- `put` on the bare list: over the value of the same key, else at the end. -/
def putList (key : α → κ) (a : α) : List α → List α
  | [] => [a]
  | b :: l => if key b = key a then a :: l else b :: putList key a l

theorem map_key_putList (a : α) (l : List α) :
    (putList key a l).map key =
      if key a ∈ l.map key then l.map key else l.map key ++ [key a] := by
  induction l with
  | nil => simp [putList]
  | cons b l ih =>
    by_cases hb : key b = key a
    · simp [putList, hb]
    · by_cases hm : key a ∈ l.map key <;> simp_all [putList, Ne.symm hb]

theorem mem_putList (hn : (l.map key).Nodup) :
    b ∈ putList key a l ↔ b = a ∨ b ∈ l ∧ key b ≠ key a := by
  induction l with
  | nil => simp [putList]
  | cons c l ih =>
    obtain ⟨hc, hn⟩ := List.nodup_cons.mp hn
    by_cases he : key c = key a
    · have hl : ∀ b ∈ l, key b ≠ key a := by
        intro b hb h
        exact hc (he ▸ h ▸ List.mem_map_of_mem hb)
      simp only [putList, he, if_true, List.mem_cons]
      constructor
      · rintro (rfl | hb)
        · exact .inl rfl
        · exact .inr ⟨.inr hb, hl b hb⟩
      · rintro (rfl | ⟨rfl | hb, hk⟩)
        · exact .inl rfl
        · exact absurd he hk
        · exact .inr hb
    · simp only [putList, he, if_false, List.mem_cons, ih hn]
      constructor
      · rintro (rfl | rfl | ⟨hb, hk⟩)
        · exact .inr ⟨.inl rfl, he⟩
        · exact .inl rfl
        · exact .inr ⟨.inr hb, hk⟩
      · rintro (rfl | ⟨rfl | hb, hk⟩)
        · exact .inr (.inl rfl)
        · exact .inl rfl
        · exact .inr (.inr ⟨hb, hk⟩)

def put (d : Keyed α key) (a : α) : Keyed α key where
  values := putList key a d.values
  nodup := by
    rw [map_key_putList]
    split
    · exact d.nodup
    · rename_i h
      exact List.nodup_append.mpr ⟨d.nodup, by simp, by
        intro x hx y hy hxy
        rw [List.mem_singleton.mp hy] at hxy
        exact h (hxy ▸ hx)⟩

theorem mem_put {d : Keyed α key} : b ∈ (d.put a).values ↔ b = a ∨ b ∈ d.values ∧ key b ≠ key a :=
  mem_putList d.nodup

theorem get?_put (d : Keyed α key) (a : α) (k : κ) :
    (d.put a).get? k = if key a = k then some a else d.get? k := by
  ext b
  rw [get?_eq_some, mem_put]
  by_cases hk : key a = k
  · simp only [hk, if_true, Option.some.injEq]
    constructor
    · rintro ⟨rfl | ⟨-, hb⟩, h⟩
      · rfl
      · exact absurd h hb
    · rintro rfl; exact ⟨.inl rfl, hk⟩
  · simp only [hk, if_false, get?_eq_some]
    constructor
    · rintro ⟨rfl | ⟨hb, -⟩, h⟩
      · exact absurd h hk
      · exact ⟨hb, h⟩
    · rintro ⟨hb, h⟩; exact ⟨.inr ⟨hb, h ▸ Ne.symm hk⟩, h⟩

theorem sum_putList (f : α → ℕ) (a : α) (l : List α) :
    ((putList key a l).map f).sum + ((l.find? fun b => key b = key a).map f).getD 0 =
      (l.map f).sum + f a := by
  induction l with
  | nil => simp [putList]
  | cons b l ih =>
    by_cases hb : key b = key a
    · simp [putList, hb]
      omega
    · simp only [putList, hb, if_false, List.map_cons, List.sum_cons, List.find?_cons,
        decide_false]
      omega

theorem sum_put (f : α → ℕ) (d : Keyed α key) (a : α) :
    ((d.put a).values.map f).sum + ((d.get? (key a)).map f).getD 0 = (d.values.map f).sum + f a :=
  sum_putList f a d.values

@[simp] theorem get?_put_self (d : Keyed α key) (a : α) : (d.put a).get? (key a) = some a := by
  simp [get?_put]

def modify (d : Keyed α key) (k : κ) (f : α → α) : Keyed α key :=
  match d.get? k with
  | none => d
  | some a => d.put (f a)

theorem get?_modify (d : Keyed α key) (k j : κ) {f : α → α} (hf : ∀ a, key (f a) = key a) :
    (d.modify k f).get? j = if j = k then (d.get? k).map f else d.get? j := by
  unfold modify
  cases h : d.get? k with
  | none => by_cases hj : j = k <;> simp [hj, h]
  | some a => simp [get?_put, hf, key_of_get? h, eq_comm]

theorem map_get?_modify (d : Keyed α key) (k j : κ) {f : α → α} {g : α → β}
    (hf : ∀ a, key (f a) = key a) (hg : ∀ a, g (f a) = g a) :
    ((d.modify k f).get? j).map g = (d.get? j).map g := by
  rw [get?_modify d k j hf]
  split
  · rename_i hj
    rw [hj, Option.map_map]
    congr 1
    exact funext hg
  · rfl

-- ---------------------------------------------------------------------------
-- Whole-store operations
-- ---------------------------------------------------------------------------

/-- Rewrite every value, keeping the keys; the values may change their type. -/
def map (d : Keyed α key) (f : α → β) (hf : ∀ a, key' (f a) = key a) : Keyed β key' where
  values := d.values.map f
  nodup := by simpa [Function.comp_def, hf] using d.nodup

theorem get?_map (d : Keyed α key) (f : α → β) (hf : ∀ a, key' (f a) = key a) (k : κ) :
    (d.map f hf).get? k = (d.get? k).map f := by
  have hkey : (fun b => decide (key' b = k)) ∘ f = fun a => decide (key a = k) := by
    funext a
    simp [hf]
  rw [get?, map, List.find?_map, hkey, get?]

def filter (d : Keyed α key) (p : α → Bool) : Keyed α key where
  values := d.values.filter p
  nodup := d.nodup.sublist (List.filter_sublist.map key)

theorem get?_filter (d : Keyed α key) (p : α → Bool) (k : κ) :
    (d.filter p).get? k = (d.get? k).filter p := by
  ext a
  simp only [get?_eq_some, filter, List.mem_filter, Option.filter_eq_some_iff]
  exact and_right_comm

def putAll (d : Keyed α key) (l : List α) : Keyed α key := l.foldl put d

def ofList (l : List α) : Keyed α key := putAll empty l

theorem putList_of_not_mem (h : key a ∉ l.map key) : putList key a l = l ++ [a] := by
  induction l with
  | nil => rfl
  | cons b l ih =>
    simp only [List.map_cons, List.mem_cons, not_or] at h
    simp [putList, Ne.symm h.1, ih h.2]

theorem values_put_of_none {d : Keyed α key} (h : d.get? (key a) = none) :
    (d.put a).values = d.values ++ [a] := by
  refine putList_of_not_mem fun hm => ?_
  obtain ⟨b, hb, hk⟩ := List.mem_map.mp hm
  have hb := mem_values.mp hb
  rw [hk, h] at hb
  cases hb

theorem values_putAll {d : Keyed α key} (h : ((d.values ++ l).map key).Nodup) :
    (d.putAll l).values = d.values ++ l := by
  induction l generalizing d with
  | nil => simp [putAll]
  | cons a l ih =>
    have ha : key a ∉ d.values.map key := by
      intro hm
      rw [List.map_append, List.map_cons] at h
      exact List.disjoint_of_nodup_append h hm List.mem_cons_self
    have hput : (d.put a).values = d.values ++ [a] := putList_of_not_mem ha
    calc ((d.put a).putAll l).values
        = (d.put a).values ++ l := ih (by simpa [hput] using h)
      _ = d.values ++ a :: l := by simp [hput]

theorem mem_of_mem_putAll {d : Keyed α key} (h : b ∈ (d.putAll l).values) :
    b ∈ d.values ∨ b ∈ l := by
  induction l generalizing d with
  | nil => exact .inl h
  | cons a l ih =>
    rcases ih h with hb | hb
    · rcases mem_put.mp hb with rfl | hb
      · exact .inr List.mem_cons_self
      · exact .inl hb.1
    · exact .inr (List.mem_cons_of_mem _ hb)

theorem mem_of_mem_ofList (h : b ∈ (ofList l : Keyed α key).values) : b ∈ l :=
  (mem_of_mem_putAll h).resolve_left (by simp [empty])

theorem values_ofList (h : (l.map key).Nodup) : (ofList l : Keyed α key).values = l :=
  values_putAll (by simpa [empty] using h)

theorem ofList_values (d : Keyed α key) : (ofList d.values : Keyed α key) = d := by
  obtain ⟨values, hn⟩ := d
  have h : (ofList values : Keyed α key).values = values := values_ofList hn
  cases hd : (ofList values : Keyed α key)
  simp_all

theorem get?_putAll (d : Keyed α key) (l : List α) (k : κ) :
    (d.putAll l).get? k = (l.filter (key · = k)).getLast?.or (d.get? k) := by
  induction l generalizing d with
  | nil => rfl
  | cons a l ih =>
    have hcons : d.putAll (a :: l) = (d.put a).putAll l := rfl
    rw [hcons, ih, get?_put, List.filter_cons]
    by_cases ha : key a = k
    · simp only [ha, if_true, decide_true, List.getLast?_cons]
      cases (l.filter (key · = k)).getLast? <;> rfl
    · simp [ha]

theorem get?_ofList (l : List α) (k : κ) :
    (ofList l : Keyed α key).get? k = (l.filter (key · = k)).getLast? := by
  rw [ofList, get?_putAll, get?_empty, Option.or_none]

-- ---------------------------------------------------------------------------
-- What holds of every value
-- ---------------------------------------------------------------------------

def All (d : Keyed α key) (Q : α → Prop) : Prop := ∀ a ∈ d.values, Q a

variable {Q : α → Prop} {R : β → Prop}

omit [DecidableEq κ] in
theorem all_empty : (empty : Keyed α key).All Q := fun _ h => nomatch h

theorem All.of_get? {d : Keyed α key} (h : d.All Q) (ha : d.get? k = some a) : Q a :=
  h a (get?_eq_some.mp ha).1

theorem all_put {d : Keyed α key} (h : d.All Q) (ha : Q a) : (d.put a).All Q := by
  intro b hb
  rcases mem_put.mp hb with rfl | ⟨hb, -⟩
  · exact ha
  · exact h b hb

theorem all_modify {d : Keyed α key} {f : α → α} (h : d.All Q) (k : κ)
    (hf : ∀ a, d.get? k = some a → Q (f a)) : (d.modify k f).All Q := by
  unfold modify
  cases ha : d.get? k with
  | none => exact h
  | some a => exact all_put h (hf a ha)

omit [DecidableEq κ] in
theorem all_map {d : Keyed α key} (h : d.All Q) {f : α → β} (hf : ∀ a, key' (f a) = key a)
    (hq : ∀ a, Q a → R (f a)) : (d.map f hf).All R := by
  intro b hb
  obtain ⟨a, ha, rfl⟩ := List.mem_map.mp hb
  exact hq a (h a ha)

omit [DecidableEq κ] in
theorem all_filter {d : Keyed α key} {p : α → Bool} (h : d.All Q) : (d.filter p).All Q :=
  fun a ha => h a (List.mem_filter.mp ha).1

-- ---------------------------------------------------------------------------
-- Values made of sources with the same keys
-- ---------------------------------------------------------------------------

variable {γ : Type x} {source : γ → κ} {f g : γ → Option α}

omit [DecidableEq κ] in
theorem sublist_filterMap (hf : ∀ c a, f c = some a → key a = source c) (l : List γ) :
    ((l.filterMap f).map key).Sublist (l.map source) := by
  induction l with
  | nil => exact .slnil
  | cons c l ih =>
    cases hc : f c with
    | none =>
      rw [List.filterMap_cons_none hc]
      exact ih.cons _
    | some a =>
      rw [List.filterMap_cons_some hc, List.map_cons, List.map_cons, hf c a hc]
      exact ih.cons_cons _

omit [DecidableEq κ] in
theorem filterMap_inj (hf : ∀ c a, f c = some a → key a = source c)
    (hg : ∀ c a, g c = some a → key a = source c) {l : List γ} (hn : (l.map source).Nodup)
    (h : l.filterMap f = l.filterMap g) : ∀ c ∈ l, f c = g c := by
  induction l with
  | nil => simp
  | cons c l ih =>
    obtain ⟨hc, hn⟩ := List.nodup_cons.mp hn
    have hfresh : ∀ {f : γ → Option α}, (∀ c a, f c = some a → key a = source c) →
        ∀ a, key a = source c → a ∉ l.filterMap f := fun hf a ha hmem =>
      hc (ha ▸ (sublist_filterMap hf l).subset (List.mem_map_of_mem hmem))
    cases hfc : f c with
    | none =>
      cases hgc : g c with
      | none =>
        rw [List.filterMap_cons_none hfc, List.filterMap_cons_none hgc] at h
        exact List.forall_mem_cons.mpr ⟨hfc.trans hgc.symm, ih hn h⟩
      | some b =>
        rw [List.filterMap_cons_none hfc, List.filterMap_cons_some hgc] at h
        exact absurd (h ▸ List.mem_cons_self) (hfresh hf b (hg c b hgc))
    | some a =>
      cases hgc : g c with
      | none =>
        rw [List.filterMap_cons_some hfc, List.filterMap_cons_none hgc] at h
        exact absurd (h ▸ List.mem_cons_self) (hfresh hg a (hf c a hfc))
      | some b =>
        rw [List.filterMap_cons_some hfc, List.filterMap_cons_some hgc] at h
        obtain ⟨rfl, hrest⟩ := List.cons.inj h
        exact List.forall_mem_cons.mpr ⟨hfc.trans hgc.symm, ih hn hrest⟩

end Keyed
