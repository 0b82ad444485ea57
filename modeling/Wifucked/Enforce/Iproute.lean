import Wifucked.Enforce.Linux

/-!
# The texts of tc and ip

Marks in hexadecimal, tables in decimal, whole megabits with their unit: what
the tools print is read as the number it stands for.
-/

namespace Wifucked

/-- Readings succeed and report what is installed: rates within a fiftieth,
tables by number but for the three that have names. -/
structure Tools.Faithful (t : Tools) : Prop where
  reads : ∀ r, t.fails r = false
  bandwidth : ∀ n, 0 < n →
    ∃ rate, parseRate (t.bandwidth n) = some rate ∧ 50 * (rate - n).natAbs ≤ n.natAbs
  fwmark : ∀ n, parseInt (t.fwmark n) = some n
  table : ∀ n, n < 253 ∨ 255 < n → parseInt (t.table n) = some n

theorem parseInt_hex (n : ℕ) :
    parseInt (.str ("0x" ++ String.ofList (Nat.toDigits 16 n))) = some (n : ℤ) := by
  have hdigit : ∀ c ∈ Nat.toDigits 16 n, Numerals.isSpace c = false ∧ c ≠ '_' := by
    intro c hc
    obtain ⟨d, hd, rfl⟩ := Numerals.mem_toDigits (by decide) hc
    obtain ⟨hspace, hunder, -⟩ := Numerals.digitChar_plain hd
    exact ⟨hspace, hunder⟩
  have htext : ("0x" ++ String.ofList (Nat.toDigits 16 n)).toList =
      '0' :: 'x' :: Nat.toDigits 16 n := by
    simp [String.toList_append]
  have hstrip : Numerals.strip ('0' :: 'x' :: Nat.toDigits 16 n) =
      '0' :: 'x' :: Nat.toDigits 16 n := by
    refine Numerals.strip_of_no_space fun c hc => ?_
    rcases List.mem_cons.mp hc with rfl | hc
    · decide
    · rcases List.mem_cons.mp hc with rfl | hc
      · decide
      · exact (hdigit c hc).1
  have hhead : (Nat.toDigits 16 n).head? ≠ some '_' := fun h =>
    (hdigit _ (List.mem_of_mem_head? h)).2 rfl
  simp [parseInt, htext, hstrip, hhead, Numerals.nat_toDigits]

theorem parseInt_toString (i : ℤ) : parseInt (.str (toString i)) = some i := by
  have hstrip : Numerals.strip (toString i).toList = (toString i).toList :=
    Numerals.strip_of_no_space fun c hc => (Numerals.mem_toString hc).1
  simp only [parseInt, hstrip]
  split
  · rename_i x digits htext
    have hx : x ∈ (toString i).toList := by rw [htext]; simp
    obtain ⟨-, -, hlower, hupper⟩ := Numerals.mem_toString hx
    rw [if_neg (by simp [hlower, hupper]), ← htext, Numerals.int_toString]
  · exact Numerals.int_toString i

theorem toLower_digitChar (d : ℕ) (h : d < 16) : d.digitChar.toLower = d.digitChar := by
  revert d
  decide

theorem parseRate_mbit (n : ℕ) :
    parseRate (.str (toString n ++ "Mbit")) = some (n * 1000000 : ℤ) := by
  have hdigit : ∀ c ∈ Nat.toDigits 10 n, Numerals.isSpace c = false ∧ c.toLower = c := by
    intro c hc
    obtain ⟨d, hd, rfl⟩ := Numerals.mem_toDigits (by decide) hc
    exact ⟨(Numerals.digitChar_plain (by omega)).1, toLower_digitChar d (by omega)⟩
  have hspace : ∀ c ∈ "Mbit".toList, Numerals.isSpace c = false := by
    simp [Numerals.isSpace]
  have htext : (toString n ++ "Mbit").toList = Nat.toDigits 10 n ++ "Mbit".toList := by
    simp [String.toList_append]
  have hstrip : Numerals.strip (Nat.toDigits 10 n ++ "Mbit".toList) =
      Nat.toDigits 10 n ++ "Mbit".toList := by
    refine Numerals.strip_of_no_space fun c hc => ?_
    rcases List.mem_append.mp hc with hc | hc
    · exact (hdigit c hc).1
    · exact hspace c hc
  have hlower : (Nat.toDigits 10 n ++ "Mbit".toList).map Char.toLower =
      Nat.toDigits 10 n ++ "mbit".toList := by
    rw [List.map_append, List.map_congr_left fun c hc => (hdigit c hc).2, List.map_id']
    rfl
  have hunit : (units.find? fun u => u.1.toList <:+ Nat.toDigits 10 n ++ "mbit".toList) =
      some ("mbit", 1000000) := by
    simp [units, ← List.reverse_prefix]
  have hnumber : (Nat.toDigits 10 n ++ "mbit".toList).take
      ((Nat.toDigits 10 n ++ "mbit".toList).length - "mbit".toList.length) =
        Nat.toDigits 10 n := by
    rw [List.length_append, Nat.add_sub_cancel, List.take_left]
  have htrunc : trunc ((n : ℚ) * 1000000) = n * 1000000 := by
    have hcast : (n : ℚ) * 1000000 = ((n * 1000000 : ℤ) : ℚ) := by push_cast; rfl
    rw [hcast, trunc_intCast]
  simp only [parseRate, htext, hstrip, hlower, hunit, hnumber, Numerals.float_toDigits,
    Option.map_some, htrunc]
  rw [if_neg]
  rintro (h | h)
  · simp at h
  · have hlast := congrArg List.getLast? h
    simp at hlast

def iproute2 : Tools where
  fails := fun _ => false
  bandwidth := fun n =>
    if 0 ≤ n ∧ n % 1000000 = 0 then .str (toString (n.natAbs / 1000000) ++ "Mbit") else .int n
  fwmark := fun n =>
    if 0 ≤ n then .str ("0x" ++ String.ofList (Nat.toDigits 16 n.natAbs)) else .int n
  table := fun n =>
    .str (if n = 255 then "local" else if n = 254 then "main" else if n = 253 then "default"
      else toString n)

theorem faithful_iproute2 : iproute2.Faithful where
  reads := fun _ => rfl
  bandwidth := by
    intro n h
    simp only [iproute2]
    split
    · rename_i hwhole
      refine ⟨n, ?_, by simp⟩
      rw [parseRate_mbit]
      congr 1
      omega
    · exact ⟨n, rfl, by simp⟩
  fwmark := by
    intro n
    simp only [iproute2]
    split
    · rename_i h
      rw [parseInt_hex, Int.natAbs_of_nonneg h]
    · rfl
  table := by
    intro n h
    have hplain : iproute2.table n = .str (toString n) := by
      simp only [iproute2]
      rw [if_neg (by omega), if_neg (by omega), if_neg (by omega)]
    rw [hplain, parseInt_toString]

end Wifucked
