import Wifucked.Lib.Numerals

/-!
# Dotted texts

Texts of parts with a point between them, and the addresses of four octets
among them. Splitting gives back the parts that a text was put together from.
-/

namespace Dotted

def parts (text : String) : List (List Char) := text.toList.splitOn '.'

theorem not_mem_of_mem_splitOn {a : Char} {l m : List Char} (h : m ∈ l.splitOn a) : a ∉ m := by
  induction l generalizing m with
  | nil =>
    rw [List.splitOn_nil] at h
    obtain rfl := List.mem_singleton.mp h
    simp
  | cons c l ih =>
    rw [List.splitOn_cons_eq_if_modifyHead] at h
    split at h
    · rcases List.mem_cons.mp h with rfl | h
      · simp
      · exact ih h
    · rename_i hc
      cases hs : l.splitOn a with
      | nil => exact absurd hs (List.splitOn_ne_nil a l)
      | cons first rest =>
        rw [hs, List.modifyHead_cons] at h
        rcases List.mem_cons.mp h with rfl | h
        · intro ha
          rcases List.mem_cons.mp ha with rfl | ha
          · simp at hc
          · exact ih (hs ▸ List.mem_cons_self) ha
        · exact ih (hs ▸ List.mem_cons_of_mem _ h)

theorem point_not_mem {text : String} (h : part ∈ parts text) : '.' ∉ part :=
  not_mem_of_mem_splitOn h

theorem point_not_mem_toString (i : ℤ) : '.' ∉ (toString i).toList := fun h =>
  (Numerals.mem_toString h).2.1 rfl

theorem toString_injective : Function.Injective (toString : ℤ → String) := fun i j h => by
  have hi := Numerals.int_toString i
  rw [h, Numerals.int_toString j] at hi
  exact (Option.some.inj hi).symm

-- ---------------------------------------------------------------------------
-- Addresses
-- ---------------------------------------------------------------------------

/-- A number up to 255, in decimal as it is written. -/
def Octet (part : List Char) : Prop := ∃ n : ℕ, n ≤ 255 ∧ part = (toString (n : ℤ)).toList

def Address (text : String) : Prop := (parts text).length = 4 ∧ ∀ part ∈ parts text, Octet part

theorem octet_toString (i : ℤ) : Octet (toString i).toList ↔ 0 ≤ i ∧ i ≤ 255 := by
  constructor
  · rintro ⟨n, hn, h⟩
    obtain rfl : i = n := toString_injective (String.toList_inj.mp h)
    omega
  · rintro ⟨h0, h255⟩
    refine ⟨i.toNat, by omega, ?_⟩
    rw [Int.toNat_of_nonneg h0]

def octetValue (part : List Char) : Option ℕ :=
  (Numerals.nat 10 part).filter fun n => n ≤ 255 ∧ part = (toString (n : ℤ)).toList

theorem octetValue_eq_some {part : List Char} :
    octetValue part = some n ↔ n ≤ 255 ∧ part = (toString (n : ℤ)).toList := by
  rw [octetValue, Option.filter_eq_some_iff, decide_eq_true_eq]
  refine and_iff_right_of_imp ?_
  rintro ⟨-, rfl⟩
  have hdigits := Numerals.toList_toString n
  rw [if_pos (Int.natCast_nonneg n), List.nil_append, Int.natAbs_natCast] at hdigits
  rw [hdigits, Numerals.nat_toDigits (by decide) (by decide)]

def number (text : String) : Option ℕ :=
  match parts text with
  | [first, second, third, last] => do
    let a ← octetValue first
    let b ← octetValue second
    let c ← octetValue third
    let d ← octetValue last
    return ((a * 256 + b) * 256 + c) * 256 + d
  | _ => none

theorem number_of_parts {text : String}
    (h : parts text = [first, second, third, last]) (ha : octetValue first = some a)
    (hb : octetValue second = some b) (hc : octetValue third = some c)
    (hd : octetValue last = some d) :
    number text = some (((a * 256 + b) * 256 + c) * 256 + d) := by
  simp [number, h, ha, hb, hc, hd]

end Dotted
