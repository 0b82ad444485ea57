import Wifucked.Lib.Keyed
import Mathlib.Algebra.Group.Nat.Defs
import Mathlib.Data.List.MinMax

/-!
# Tables of address prefixes

A table says which owner each prefix belongs to, and a prefix belongs to one
owner at most. Assigning prefixes to an owner replaces what it had and takes
them from whoever had them. An address belongs to the owner of the longest
prefix that covers it.
-/

/-- The addresses of `w` bits that agree in their first `length` bits. -/
structure Prefix (w : ℕ) where
  block : ℕ
  length : ℕ
  deriving DecidableEq, Repr

namespace Prefix

variable {w : ℕ}

/-- The bits after the first `length` are dropped. -/
def ofAddress (w a length : ℕ) : Prefix w := ⟨a / 2 ^ (w - length), length⟩

def host (w a : ℕ) : Prefix w := ofAddress w a w

def Covers (p : Prefix w) (a : ℕ) : Prop := a / 2 ^ (w - p.length) = p.block

instance (p : Prefix w) (a : ℕ) : Decidable (p.Covers a) :=
  inferInstanceAs (Decidable (a / 2 ^ (w - p.length) = p.block))

theorem host_eq (a : ℕ) : host w a = ⟨a, w⟩ := by simp [host, ofAddress]

theorem host_inj : host w a = host w b ↔ a = b := by simp [host_eq]

theorem eq_of_covers {p q : Prefix w} (hp : p.Covers a) (hq : q.Covers a)
    (h : p.length = q.length) : p = q := by
  obtain ⟨pb, pl⟩ := p
  obtain ⟨qb, ql⟩ := q
  subst h
  obtain rfl : pb = qb := hp.symm.trans hq
  rfl

theorem covers_ofAddress : (ofAddress w a n).Covers b ↔ b / 2 ^ (w - n) = a / 2 ^ (w - n) := Iff.rfl

theorem covers_of_between {p : Prefix w} (ha : p.Covers a) (hb : p.Covers b) (hax : a ≤ x)
    (hxb : x ≤ b) : p.Covers x :=
  le_antisymm ((Nat.div_le_div_right hxb).trans hb.le) (ha.ge.trans (Nat.div_le_div_right hax))

theorem meet_iff : (∃ x, (ofAddress w a n).Covers x ∧ (ofAddress w b n).Covers x) ↔
    a / 2 ^ (w - n) = b / 2 ^ (w - n) :=
  ⟨fun ⟨_, ha, hb⟩ => ha.symm.trans hb, fun h => ⟨a, rfl, h⟩⟩

end Prefix

structure PrefixTable (w : ℕ) (κ : Type u) where
  entries : Keyed (Prefix w × κ) Prod.fst

namespace PrefixTable

variable {w : ℕ} {κ : Type u}

def empty : PrefixTable w κ := ⟨.empty⟩

def owner (t : PrefixTable w κ) (p : Prefix w) : Option κ := (t.entries.get? p).map Prod.snd

def lookup (t : PrefixTable w κ) (a : ℕ) : Option κ :=
  ((t.entries.values.filter fun e => e.1.Covers a).argmax fun e => e.1.length).map Prod.snd

@[simp] theorem owner_empty (p : Prefix w) : (empty : PrefixTable w κ).owner p = none := rfl

theorem owner_eq_some {t : PrefixTable w κ} : t.owner p = some k ↔ (p, k) ∈ t.entries.values := by
  constructor
  · intro h
    obtain ⟨⟨q, j⟩, hq, rfl⟩ := Option.map_eq_some_iff.mp h
    obtain ⟨hm, rfl⟩ := Keyed.get?_eq_some.mp hq
    exact hm
  · intro h
    simp [owner, Keyed.mem_values.mp h]

theorem lookup_eq_some {t : PrefixTable w κ} :
    t.lookup a = some k ↔ ∃ p, t.owner p = some k ∧ p.Covers a ∧
      ∀ q j, t.owner q = some j → q.Covers a → q.length ≤ p.length := by
  classical
  simp only [lookup, Option.map_eq_some_iff, Prod.exists, exists_eq_right, owner_eq_some]
  refine exists_congr fun p => ?_
  rw [List.argmax_eq_some_iff]
  simp only [List.mem_filter, decide_eq_true_eq, Prod.forall]
  constructor
  · rintro ⟨⟨hm, hc⟩, hmax, -⟩
    exact ⟨hm, hc, fun q j hq hqc => hmax q j ⟨hq, hqc⟩⟩
  · rintro ⟨hm, hc, hmax⟩
    refine ⟨⟨hm, hc⟩, fun q j hq => hmax q j hq.1 hq.2, ?_⟩
    rintro q j ⟨hq, hqc⟩ hle
    -- no other entry covers the address with a prefix as long
    obtain rfl : p = q := Prefix.eq_of_covers hc hqc (le_antisymm hle (hmax q j hq hqc))
    obtain rfl : k = j := by
      have h := Keyed.mem_values.mp hm
      rw [Keyed.mem_values.mp hq] at h
      exact (congrArg Prod.snd (Option.some.inj h)).symm
    exact le_rfl

theorem lookup_isSome {t : PrefixTable w κ} (h : t.owner p = some k) (hc : p.Covers a) :
    (t.lookup a).isSome := by
  rw [lookup, Option.isSome_map, Option.isSome_iff_ne_none, Ne, List.argmax_eq_none]
  exact List.ne_nil_of_mem (List.mem_filter.mpr ⟨owner_eq_some.mp h, by simpa using hc⟩)

/-- Where every prefix has one owner, so has every address that one covers. -/
theorem lookup_of_owner {t : PrefixTable w κ} (hall : ∀ q j, t.owner q = some j → j = k)
    (h : t.owner p = some k) (hc : p.Covers a) : t.lookup a = some k := by
  obtain ⟨j, hj⟩ := Option.isSome_iff_exists.mp (lookup_isSome h hc)
  obtain ⟨q, hq, -⟩ := lookup_eq_some.mp hj
  rw [hj, hall q j hq]

variable [DecidableEq κ]

def assign (t : PrefixTable w κ) (k : κ) (ps : List (Prefix w)) : PrefixTable w κ :=
  ⟨(t.entries.filter fun e => e.2 ≠ k).putAll (ps.map fun p => (p, k))⟩

theorem owner_assign (t : PrefixTable w κ) (k : κ) (ps : List (Prefix w)) (p : Prefix w) :
    (t.assign k ps).owner p = if p ∈ ps then some k else (t.owner p).filter (· ≠ k) := by
  have hlast : ((ps.map fun p => (p, k)).filter (·.1 = p)).getLast? =
      if p ∈ ps then some (p, k) else none := by
    induction ps with
    | nil => rfl
    | cons q ps ih =>
      by_cases hq : q = p
      · subst hq
        rw [List.map_cons, List.filter_cons_of_pos (by simp), List.getLast?_cons, ih]
        by_cases hm : q ∈ ps <;> simp [hm]
      · rw [List.map_cons, List.filter_cons_of_neg (by simpa using hq), ih]
        simp [Ne.symm hq]
  rw [owner, assign, Keyed.get?_putAll, hlast, Keyed.get?_filter, owner]
  by_cases hm : p ∈ ps
  · simp [hm]
  · cases t.entries.get? p with
    | none => simp [hm]
    | some e => by_cases he : e.2 = k <;> simp [hm, he, Option.filter]

end PrefixTable
