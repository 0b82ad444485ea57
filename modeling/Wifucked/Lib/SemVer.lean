import Wifucked.Lib.Dotted

/-!
# Semantic versions

Versions of three numbers, with identifiers of a prerelease if they are one, their
texts and their precedence. What is built, behind a plus sign, has no part in it.
-/

namespace SemVer

structure Core where
  major : ℕ
  minor : ℕ
  patch : ℕ
  deriving DecidableEq, Repr

namespace Core

def Lt (c d : Core) : Prop :=
  c.major < d.major ∨ c.major = d.major ∧
    (c.minor < d.minor ∨ c.minor = d.minor ∧ c.patch < d.patch)

instance (c d : Core) : Decidable (c.Lt d) := inferInstanceAs (Decidable (_ ∨ _))

theorem Lt.trans {b c d : Core} (h : b.Lt c) (h' : c.Lt d) : b.Lt d := by
  unfold Lt at *
  omega

def Le (c d : Core) : Prop := c = d ∨ c.Lt d

theorem Le.trans {b c d : Core} (h : b.Le c) (h' : c.Le d) : b.Le d := by
  rcases h with rfl | h
  · exact h'
  · rcases h' with rfl | h'
    · exact .inr h
    · exact .inr (h.trans h')

theorem Lt.trans_le {b c d : Core} (h : b.Lt c) (h' : c.Le d) : b.Lt d := by
  rcases h' with rfl | h'
  · exact h
  · exact h.trans h'

theorem Le.trans_lt {b c d : Core} (h : b.Le c) (h' : c.Lt d) : b.Lt d := by
  rcases h with rfl | h
  · exact h'
  · exact h.trans h'

def text (c : Core) : List Char :=
  (toString c.major).toList ++ '.' :: ((toString c.minor).toList ++ '.' ::
    (toString c.patch).toList)

end Core

inductive Ident where
  | numeric (n : ℕ)
  | alnum (t : List Char)
  deriving DecidableEq, Repr

def Ident.Lt : Ident → Ident → Prop
  | .numeric m, .numeric n => m < n
  | .numeric _, .alnum _ => True
  | .alnum _, .numeric _ => False
  | .alnum s, .alnum t => s < t

def isIdentChar (c : Char) : Bool := c.isAlphanum || c = '-'

structure Version where
  core : Core
  prerelease : List Ident
  deriving DecidableEq, Repr

def PrereleaseLt (p q : List Ident) : Prop := p ≠ [] ∧ (q = [] ∨ List.Lex Ident.Lt p q)

def Precedes (v w : Version) : Prop :=
  v.core.Lt w.core ∨ v.core = w.core ∧ PrereleaseLt v.prerelease w.prerelease

-- ---------------------------------------------------------------------------
-- Texts
-- ---------------------------------------------------------------------------

/-- A number has no zero before it. -/
def number (part : List Char) : Option ℕ :=
  if part.all Char.isDigit ∧ (part.head? = some '0' → part.length = 1) then Numerals.nat 10 part
  else none

def ident (part : List Char) : Option Ident :=
  if part.all Char.isDigit then (number part).map .numeric
  else if part.all isIdentChar then some (.alnum part)
  else none

def core (text : List Char) : Option Core :=
  match text.splitOn '.' with
  | [major, minor, patch] => do
    return ⟨← number major, ← number minor, ← number patch⟩
  | _ => none

def parse (text : List Char) : Option Version := do
  let text := text.takeWhile (· ≠ '+')
  let prerelease ← match text.dropWhile (· ≠ '-') with
    | [] => some []
    | _ :: prerelease => (prerelease.splitOn '.').mapM ident
  return ⟨← core (text.takeWhile (· ≠ '-')), prerelease⟩

theorem digits_toString (n : ℕ) : (toString n).toList = Nat.toDigits 10 n := by
  have h := Numerals.toList_toString n
  rwa [if_pos (Int.natCast_nonneg n), List.nil_append, Int.natAbs_natCast] at h

theorem eq_zero_of_head? (n : ℕ) (h : (Nat.toDigits 10 n).head? = some '0') : n = 0 := by
  induction n using Nat.strongRecOn with
  | ind n ih =>
    by_cases hn : n < 10
    · rw [Nat.toDigits_of_lt_base hn] at h
      have hdigit : Numerals.digit 10 n.digitChar = some n :=
        Numerals.digit_digitChar (by decide) hn
      rw [Option.some.inj h] at hdigit
      exact (Option.some.inj hdigit).symm
    · rw [Nat.toDigits_of_base_le (by omega) (by omega), List.head?_append] at h
      have hne : Nat.toDigits 10 (n / 10) ≠ [] := Nat.toDigits_ne_nil
      obtain ⟨c, rest, hc⟩ := List.exists_cons_of_ne_nil hne
      have := ih (n / 10) (by omega) (by simpa [hc] using h)
      omega

theorem number_toDigits (n : ℕ) : number (Nat.toDigits 10 n) = some n := by
  have hdigits : (Nat.toDigits 10 n).all Char.isDigit :=
    List.all_eq_true.mpr fun _ h => Nat.isDigit_of_mem_toDigits (by decide) (by decide) h
  have hzero : (Nat.toDigits 10 n).head? = some '0' → (Nat.toDigits 10 n).length = 1 := by
    intro h
    rw [eq_zero_of_head? n h]
    rfl
  rw [number, if_pos ⟨hdigits, hzero⟩, Numerals.nat_toDigits (by decide) (by decide)]

theorem splitOn_text (c : Core) :
    c.text.splitOn '.' =
      [Nat.toDigits 10 c.major, Nat.toDigits 10 c.minor, Nat.toDigits 10 c.patch] := by
  have hpoint : ∀ n : ℕ, '.' ∉ Nat.toDigits 10 n := fun n h =>
    absurd (Nat.isDigit_of_mem_toDigits (by decide) (by decide) h) (by decide)
  simp only [Core.text, digits_toString]
  rw [List.splitOn_append_cons_self_of_not_mem (hpoint _),
    List.splitOn_append_cons_self_of_not_mem (hpoint _), List.splitOn_eq_singleton (hpoint _)]

theorem core_text (c : Core) : core c.text = some c := by
  simp only [core, splitOn_text, number_toDigits]
  rfl

theorem mem_core_text {c : Core} (h : x ∈ c.text) : x.isDigit ∨ x = '.' := by
  simp only [Core.text, digits_toString, List.mem_append, List.mem_cons] at h
  rcases h with h | h | h | h | h
  · exact .inl (Nat.isDigit_of_mem_toDigits (by decide) (by decide) h)
  · exact .inr h
  · exact .inl (Nat.isDigit_of_mem_toDigits (by decide) (by decide) h)
  · exact .inr h
  · exact .inl (Nat.isDigit_of_mem_toDigits (by decide) (by decide) h)

theorem isDigit_ne {x : Char} (h : x.isDigit) : x ≠ '.' ∧ x ≠ '+' ∧ x ≠ '-' := by
  refine ⟨?_, ?_, ?_⟩ <;> rintro rfl <;> simp at h

theorem isIdentChar_ne {x : Char} (h : isIdentChar x) : x ≠ '.' ∧ x ≠ '+' := by
  refine ⟨?_, ?_⟩ <;> rintro rfl <;> revert h <;> decide

theorem mem_core_text_ne {c : Core} (h : x ∈ c.text) : x ≠ '+' ∧ x ≠ '-' := by
  rcases mem_core_text h with h | rfl
  · exact (isDigit_ne h).2
  · decide

theorem parse_core_text (c : Core) : parse c.text = some ⟨c, []⟩ := by
  have hplus : c.text.takeWhile (· ≠ '+') = c.text :=
    List.takeWhile_eq_self_iff.mpr fun x hx => decide_eq_true (mem_core_text_ne hx).1
  have hminus : ∀ x ∈ c.text, decide (x ≠ '-') = true := fun x hx =>
    decide_eq_true (mem_core_text_ne hx).2
  have hdrop : c.text.dropWhile (· ≠ '-') = [] := List.dropWhile_eq_nil_iff.mpr hminus
  have htake : c.text.takeWhile (· ≠ '-') = c.text := List.takeWhile_eq_self_iff.mpr hminus
  simp only [parse, hplus, hdrop, htake, core_text]
  rfl

theorem parse_append (c : Core) (h : ∀ x ∈ part, x ≠ '+') :
    parse (c.text ++ '-' :: part) =
      ((part.splitOn '.').mapM ident).map fun ids => ⟨c, ids⟩ := by
  have hplus : (c.text ++ '-' :: part).takeWhile (· ≠ '+') = c.text ++ '-' :: part := by
    refine List.takeWhile_eq_self_iff.mpr fun x hx => decide_eq_true ?_
    rw [List.mem_append, List.mem_cons] at hx
    rcases hx with hx | rfl | hx
    · exact (mem_core_text_ne hx).1
    · decide
    · exact h x hx
  have hminus : ∀ x ∈ c.text, decide (x ≠ '-') = true := fun x hx =>
    decide_eq_true (mem_core_text_ne hx).2
  have hdrop : (c.text ++ '-' :: part).dropWhile (· ≠ '-') = '-' :: part := by
    rw [List.dropWhile_append_of_pos hminus]
    rfl
  have htake : (c.text ++ '-' :: part).takeWhile (· ≠ '-') = c.text := by
    rw [List.takeWhile_append_of_pos hminus]
    exact List.append_nil _
  simp only [parse, hplus, hdrop, htake, core_text]
  cases (part.splitOn '.').mapM ident <;> rfl

-- ---------------------------------------------------------------------------
-- One identifier
-- ---------------------------------------------------------------------------

theorem digit_of_isDigit (h : c.isDigit) : ∃ d, Numerals.anyDigit 10 c = some d ∧ c ≠ '_' := by
  have hrange : 48 ≤ c.toNat ∧ c.toNat ≤ 57 := by
    simpa [Char.isDigit, UInt32.le_iff_toNat_le] using h
  refine ⟨c.toNat - 48, ?_, ?_⟩
  · have hdigit : '0' ≤ c ∧ c ≤ '9' := by
      simpa [Char.le_def, UInt32.le_iff_toNat_le] using hrange
    refine Numerals.anyDigit_of_digit ?_
    rw [Numerals.digit, Numerals.digitValue, if_pos hdigit, Option.filter_some, if_pos]
    exact decide_eq_true (by omega)
  · rintro rfl
    revert hrange
    decide

theorem moreDigits_of_isDigit (h : ∀ c ∈ l, c.isDigit) (n : ℕ) :
    ∃ k, Numerals.moreDigits 10 false n l = some k := by
  induction l generalizing n with
  | nil => exact ⟨n, rfl⟩
  | cons c l ih =>
    rw [List.forall_mem_cons] at h
    obtain ⟨d, hd, hc⟩ := digit_of_isDigit h.1
    obtain ⟨k, hk⟩ := ih h.2 (n * 10 + d)
    exact ⟨k, by rw [Numerals.moreDigits, if_neg hc, hd]; exact hk⟩

theorem nat_of_isDigit (h : ∀ c ∈ l, c.isDigit) (hne : l ≠ []) :
    ∃ n, Numerals.nat 10 l = some n := by
  obtain ⟨c, l, rfl⟩ := List.exists_cons_of_ne_nil hne
  rw [List.forall_mem_cons] at h
  obtain ⟨d, hd, -⟩ := digit_of_isDigit h.1
  obtain ⟨k, hk⟩ := moreDigits_of_isDigit h.2 d
  exact ⟨k, by rw [Numerals.nat, hd]; exact hk⟩

theorem ident_eq_none_iff (h : ∀ c ∈ part, isIdentChar c) (hlength : 1 < part.length) :
    ident part = none ↔ (∀ c ∈ part, c.isDigit) ∧ part.head? = some '0' := by
  have hne : part ≠ [] := by
    rintro rfl
    cases hlength
  by_cases hdigits : ∀ c ∈ part, c.isDigit
  · obtain ⟨n, hn⟩ := nat_of_isDigit hdigits hne
    have hall : part.all Char.isDigit := List.all_eq_true.mpr hdigits
    rw [ident, if_pos hall, Option.map_eq_none_iff, number, hn]
    split_ifs with hzero
    · have hhead : part.head? ≠ some '0' := fun hhead => by
        have := hzero.2 hhead
        omega
      exact iff_of_false (by simp) fun h => hhead h.2
    · have hhead : part.head? = some '0' := by
        by_contra hhead
        exact hzero ⟨hall, fun h => absurd h hhead⟩
      exact iff_of_true rfl ⟨hdigits, hhead⟩
  · have hall : ¬part.all Char.isDigit := fun hall => hdigits (List.all_eq_true.mp hall)
    rw [ident, if_neg hall, if_pos (List.all_eq_true.mpr h)]
    exact iff_of_false (by simp) fun h => hdigits h.1

end SemVer
