import Mathlib.Algebra.Field.Rat
import Mathlib.Data.List.DropRight
import Mathlib.Data.List.TakeWhile
import Mathlib.Tactic.NormNum
import Wifucked.Lib.Scan

/-!
# Numbers in texts

Reading a whole number or a decimal fraction the way Python's `int` and
`float` do: outer whitespace, a sign, and single underscores between digits are
allowed. A decimal digit may be of any script of Unicode 15, a letter for a digit
is ASCII. What `toString` writes is read back.
-/

namespace Numerals

def isSpace (c : Char) : Bool :=
  c.toNat ∈ [0x20, 0x85, 0xa0, 0x1680, 0x2028, 0x2029, 0x202f, 0x205f, 0x3000] ||
    (9 ≤ c.toNat && c.toNat ≤ 13) || (28 ≤ c.toNat && c.toNat ≤ 31) ||
    (0x2000 ≤ c.toNat && c.toNat ≤ 0x200a)

def strip (l : List Char) : List Char :=
  ((l.dropWhile isSpace).reverse.dropWhile isSpace).reverse

def afterLast (sep : Char) (l : List Char) : Option (List Char) :=
  if sep ∈ l then some (l.reverse.takeWhile (· ≠ sep)).reverse else none

def digitValue (c : Char) : Option ℕ :=
  if '0' ≤ c ∧ c ≤ '9' then some (c.toNat - 48)
  else if 'a' ≤ c ∧ c ≤ 'z' then some (c.toNat - 87)
  else if 'A' ≤ c ∧ c ≤ 'Z' then some (c.toNat - 55)
  else none

def digit (base : ℕ) (c : Char) : Option ℕ := (digitValue c).filter (· < base)

/-- The zeros of the scripts that have decimal digits, each with its other nine after it. -/
def zeros : List ℕ :=
  [0x660, 0x6f0, 0x7c0, 0x966, 0x9e6, 0xa66, 0xae6, 0xb66, 0xbe6, 0xc66, 0xce6, 0xd66, 0xde6,
    0xe50, 0xed0, 0xf20, 0x1040, 0x1090, 0x17e0, 0x1810, 0x1946, 0x19d0, 0x1a80, 0x1a90, 0x1b50,
    0x1bb0, 0x1c40, 0x1c50, 0xa620, 0xa8d0, 0xa900, 0xa9d0, 0xa9f0, 0xaa50, 0xabf0, 0xff10,
    0x104a0, 0x10d30, 0x11066, 0x110f0, 0x11136, 0x111d0, 0x112f0, 0x11450, 0x114d0, 0x11650,
    0x116c0, 0x11730, 0x118e0, 0x11950, 0x11c50, 0x11d50, 0x11da0, 0x11f50, 0x16a60, 0x16ac0,
    0x16b50, 0x1d7ce, 0x1d7d8, 0x1d7e2, 0x1d7ec, 0x1d7f6, 0x1e140, 0x1e2f0, 0x1e4f0, 0x1e950,
    0x1fbf0]

def otherDigit (c : Char) : Option ℕ :=
  (zeros.find? fun first => first ≤ c.toNat ∧ c.toNat < first + 10).map (c.toNat - ·)

/-- A digit of any script. -/
def anyDigit (base : ℕ) (c : Char) : Option ℕ :=
  digit base c <|> (otherDigit c).filter (· < base)

/-- The digits after the first one; `under` says that an underscore was last. -/
def moreDigits (base : ℕ) : Bool → ℕ → List Char → Option ℕ
  | under, n, [] => if under then none else some n
  | under, n, c :: cs =>
    if c = '_' then if under then none else moreDigits base true n cs
    else (anyDigit base c).bind fun d => moreDigits base false (n * base + d) cs

def nat (base : ℕ) : List Char → Option ℕ
  | [] => none
  | c :: cs => (anyDigit base c).bind fun d => moreDigits base false d cs

def signed {α : Type} [Neg α] (f : List Char → Option α) : List Char → Option α
  | '-' :: cs => (f cs).map (- ·)
  | '+' :: cs => f cs
  | cs => f cs

def int (l : List Char) : Option ℤ := signed (fun cs => (nat 10 cs).map Int.ofNat) (strip l)

/-- The digits that Python reads into a number in decimal. -/
def maxDigits : ℕ := 4300

def digitCount (l : List Char) : ℕ := l.countP fun c => (anyDigit 10 c).isSome

/-- `int` of a text that may be too long for it. -/
def shortInt (l : List Char) : Option ℤ := if maxDigits < digitCount l then none else int l

/-- Digits with a point: either side may be empty, but not both. -/
def mantissa (l : List Char) : Option ℚ :=
  let whole := l.takeWhile (· ≠ '.')
  let rest := (l.dropWhile (· ≠ '.')).tail
  let places := (rest.filter (· ≠ '_')).length
  match whole, rest with
  | [], [] => none
  | [], _ => (nat 10 rest).map fun f : ℕ => (f : ℚ) / 10 ^ places
  | _, [] => (nat 10 whole).map fun n : ℕ => (n : ℚ)
  | _, _ =>
    (nat 10 whole).bind fun n : ℕ =>
      (nat 10 rest).map fun f : ℕ => (n : ℚ) + (f : ℚ) / 10 ^ places

def exponent (e : ℤ) : ℚ := if 0 ≤ e then 10 ^ e.toNat else 1 / 10 ^ (-e).toNat

/-- A decimal fraction with an optional exponent, at its exact value. -/
def float (l : List Char) : Option ℚ :=
  let l := strip l
  let isE (c : Char) : Bool := c = 'e' || c = 'E'
  match l.dropWhile fun c => !isE c with
  | [] => signed mantissa l
  | _ :: cs =>
    (signed mantissa (l.takeWhile fun c => !isE c)).bind fun m =>
      (signed (fun cs => (nat 10 cs).map Int.ofNat) cs).map fun e => m * exponent e

-- ---------------------------------------------------------------------------
-- Reading back what was written
-- ---------------------------------------------------------------------------

theorem digit_digitChar (hb : base ≤ 16) (h : d < base) : digit base d.digitChar = some d := by
  have hvalue : ∀ d < 16, digitValue (Nat.digitChar d) = some d := by decide
  simp [digit, hvalue d (by omega), h]

theorem anyDigit_of_digit (h : digit base c = some d) : anyDigit base c = some d := by
  rw [anyDigit, h]
  rfl

theorem anyDigit_digitChar (hb : base ≤ 16) (h : d < base) :
    anyDigit base d.digitChar = some d :=
  anyDigit_of_digit (digit_digitChar hb h)

theorem digitChar_plain (h : d < 16) :
    isSpace d.digitChar = false ∧ d.digitChar ≠ '_' ∧ d.digitChar ≠ '.' ∧ d.digitChar ≠ '-' ∧
      d.digitChar ≠ '+' ∧ d.digitChar ≠ 'x' ∧ d.digitChar ≠ 'X' := by
  revert d
  decide

theorem digitChar_ne_e (h : d < 10) : d.digitChar ≠ 'e' ∧ d.digitChar ≠ 'E' := by
  revert d
  decide

theorem mem_toDigits (hb : 1 < base) (h : c ∈ Nat.toDigits base n) :
    ∃ d < base, c = d.digitChar := by
  induction n using Nat.strong_induction_on with
  | _ n ih =>
    rw [Nat.toDigits_eq_if hb] at h
    split at h
    · rename_i hn
      exact ⟨n, hn, List.mem_singleton.mp h⟩
    · rename_i hn
      rcases List.mem_append.mp h with h | h
      · exact ih _ (Nat.div_lt_self (by omega) hb) h
      · exact ⟨n % base, Nat.mod_lt _ (by omega), by simpa using h⟩

theorem moreDigits_append (n : ℕ) (hcs : ∀ c ∈ cs, c ≠ '_') (hd : anyDigit base c = some d)
    (hc : c ≠ '_') :
    moreDigits base false n (cs ++ [c]) =
      (moreDigits base false n cs).map fun m => m * base + d := by
  induction cs generalizing n with
  | nil => simp [moreDigits, hd, hc]
  | cons e cs ih =>
    have he : e ≠ '_' := hcs e (by simp)
    simp only [List.cons_append, moreDigits, he, if_false]
    cases anyDigit base e with
    | none => rfl
    | some v => exact ih _ fun c hc => hcs c (by simp [hc])

theorem nat_toDigits (hb : 1 < base) (h16 : base ≤ 16) (n : ℕ) :
    nat base (Nat.toDigits base n) = some n := by
  induction n using Nat.strong_induction_on with
  | _ n ih =>
    rw [Nat.toDigits_eq_if hb]
    split
    · rename_i hn
      simp [nat, anyDigit_digitChar h16 hn, moreDigits]
    · rename_i hn
      have hdiv := ih (n / base) (Nat.div_lt_self (by omega) hb)
      have hmod : n % base < base := Nat.mod_lt _ (by omega)
      cases hds : Nat.toDigits base (n / base) with
      | nil => exact absurd hds Nat.toDigits_ne_nil
      | cons c cs =>
        rw [hds] at hdiv
        simp only [nat, Option.bind_eq_some_iff] at hdiv
        obtain ⟨v, hv, hmore⟩ := hdiv
        have hcs : ∀ c ∈ cs, c ≠ '_' := by
          intro c hc
          obtain ⟨d, hd, rfl⟩ := mem_toDigits hb (hds ▸ List.mem_cons_of_mem _ hc)
          exact (digitChar_plain (by omega)).2.1
        simp only [List.cons_append, nat, hv, Option.bind_some]
        rw [moreDigits_append v hcs (anyDigit_digitChar h16 hmod) (digitChar_plain (by omega)).2.1,
          hmore]
        simp [Nat.div_add_mod']

theorem digit_eq_none (h : isSpace c = true) : digit base c = none := by
  suffices hvalue : digitValue c = none by rw [digit, hvalue, Option.filter_none]
  simp only [isSpace, List.mem_cons, List.not_mem_nil, or_false, Bool.or_eq_true,
    decide_eq_true_eq, Bool.and_eq_true] at h
  have hrange : ∀ lo hi : Char, (lo ≤ c ∧ c ≤ hi) = (lo.toNat ≤ c.toNat ∧ c.toNat ≤ hi.toNat) :=
    fun lo hi => rfl
  simp only [digitValue, hrange, Char.reduceToNat]
  rw [if_neg (by omega), if_neg (by omega), if_neg (by omega)]

theorem strip_of_no_space (h : ∀ c ∈ l, isSpace c = false) : strip l = l := by
  have hdrop : ∀ l : List Char, (∀ c ∈ l, isSpace c = false) → l.dropWhile isSpace = l := by
    intro l hl
    cases l with
    | nil => rfl
    | cons c l => simp [hl c (by simp)]
  rw [strip, hdrop l h, hdrop l.reverse (by simpa using h), List.reverse_reverse]

theorem strip_eq (l : List Char) : strip l = (l.dropWhile isSpace).rdropWhile isSpace := by
  rw [strip, List.rdropWhile]

theorem dropWhile_strip (l : List Char) : (strip l).dropWhile isSpace = strip l := by
  rw [strip_eq]
  refine List.dropWhile_eq_self_iff.mpr ?_
  intro hl
  have hpre := List.rdropWhile_prefix isSpace (l := l.dropWhile isSpace)
  rw [hpre.getElem hl]
  exact List.dropWhile_get_zero_not isSpace l (hl.trans_le hpre.length_le)

theorem rdropWhile_strip (l : List Char) : (strip l).rdropWhile isSpace = strip l := by
  rw [strip_eq, List.rdropWhile_idempotent]

/-- A stripped text is read back from a line. -/
theorem strip_strip_append (hs : ∀ c ∈ s, isSpace c = true) : strip (strip l ++ s) = strip l := by
  have hr : ∀ m : List Char, (m ++ s).rdropWhile isSpace = m.rdropWhile isSpace := by
    intro m
    rw [List.rdropWhile, List.reverse_append, List.dropWhile_append_of_pos (by simpa using hs),
      List.rdropWhile]
  have hl := dropWhile_strip l
  cases hm : strip l with
  | nil => rw [strip_eq, List.nil_append, List.dropWhile_eq_nil_iff.mpr hs, List.rdropWhile_nil]
  | cons c m =>
    rw [hm] at hl
    have hc : isSpace c = false := by
      by_contra hc
      have hlen := congrArg List.length hl
      rw [List.dropWhile_cons_of_pos (by simpa using hc)] at hlen
      have := (List.dropWhile_suffix isSpace (l := m)).length_le
      simp at hlen
      omega
    rw [strip_eq, List.cons_append, List.dropWhile_cons_of_neg (by simp [hc]), ← List.cons_append,
      hr, ← hm, rdropWhile_strip]

theorem strip_space_append (hs : ∀ c ∈ s, isSpace c = true) (l : List Char) :
    strip (s ++ l) = strip l := by
  rw [strip_eq, List.dropWhile_append_of_pos hs, ← strip_eq]

theorem strip_blank (l : List Char) : strip (' ' :: l) = strip l :=
  strip_space_append (List.forall_mem_singleton.mpr rfl) l

theorem rdropWhile_append_space (l : List Char) (hs : ∀ c ∈ s, isSpace c = true) :
    (l ++ s).rdropWhile isSpace = l.rdropWhile isSpace := by
  rw [List.rdropWhile, List.reverse_append, List.dropWhile_append_of_pos (by simpa using hs),
    List.rdropWhile]

theorem strip_append_space (l : List Char) (hs : ∀ c ∈ s, isSpace c = true) :
    strip (l ++ s) = strip l := by
  rw [strip_eq, strip_eq, List.dropWhile_append]
  split
  · rename_i hl
    rw [List.isEmpty_iff.mp hl, List.dropWhile_eq_nil_iff.mpr hs]
  · rw [rdropWhile_append_space _ hs]

theorem strip_rdropWhile (l : List Char) : strip (l.rdropWhile isSpace) = strip l := by
  have hl := List.rdropWhile_append_rtakeWhile (p := isSpace) (l := l)
  conv_rhs => rw [← hl]
  exact (strip_append_space _ fun c hc => List.mem_rtakeWhile_imp hc).symm

theorem strip_append {l : List Char} (hfirst : l.head?.any fun c => !isSpace c)
    (hlast : l.getLast?.any fun c => !isSpace c) (r : List Char) :
    strip (l ++ r) = l ++ r.rdropWhile isSpace := by
  have hdrop : (l ++ r).dropWhile isSpace = l ++ r := by
    cases l with
    | nil => cases hfirst
    | cons c l => simpa using hfirst
  have hkeep : l.rdropWhile isSpace = l := by
    rw [List.rdropWhile_eq_self_iff]
    intro hl
    simpa [List.getLast?_eq_some_getLast hl] using hlast
  rw [strip_eq, hdrop, List.rdropWhile, List.reverse_append, List.dropWhile_append]
  split
  · rename_i hr
    rw [← List.rdropWhile, hkeep, List.rdropWhile, List.isEmpty_iff.mp hr, List.reverse_nil,
      List.append_nil]
  · rw [List.reverse_append, List.reverse_reverse, ← List.rdropWhile]

theorem afterLast_append (h : sep ∉ r) : afterLast sep (l ++ sep :: r) = some r := by
  have hr : sep ∉ r.reverse := fun hc => h (List.mem_reverse.mp hc)
  rw [afterLast, if_pos (by simp), List.reverse_append, List.reverse_cons, List.append_assoc,
    List.singleton_append, Scan.takeWhile_ne_append hr, List.reverse_reverse]

theorem toList_toString (i : ℤ) :
    (toString i).toList = (if 0 ≤ i then [] else ['-']) ++ Nat.toDigits 10 i.natAbs := by
  rw [Int.toString_eq_repr, Int.repr_eq_if]
  split
  · rename_i h
    rw [Nat.toList_repr, List.nil_append, show i.toNat = i.natAbs by omega]
  · rename_i h
    rw [String.toList_append, Nat.toList_repr, show (-i).toNat = i.natAbs by omega]
    rfl

theorem mem_toString {i : ℤ} (h : c ∈ (toString i).toList) :
    isSpace c = false ∧ c ≠ '.' ∧ c ≠ 'x' ∧ c ≠ 'X' := by
  rw [toList_toString] at h
  rcases List.mem_append.mp h with h | h
  · split at h
    · cases h
    · obtain rfl := List.mem_singleton.mp h
      decide
  · obtain ⟨d, hd, rfl⟩ := mem_toDigits (by decide) h
    obtain ⟨hspace, -, hdot, -, -, hx⟩ := digitChar_plain (d := d) (by omega)
    exact ⟨hspace, hdot, hx⟩

theorem signed_digitChar {α : Type} [Neg α] (f : List Char → Option α) (hd : d < 10)
    (l : List Char) : signed f (d.digitChar :: l) = f (d.digitChar :: l) := by
  obtain ⟨-, -, -, hminus, hplus, -⟩ := digitChar_plain (d := d) (by omega)
  unfold signed
  split
  · rename_i he; exact absurd (List.cons.inj he).1 hminus
  · rename_i he; exact absurd (List.cons.inj he).1 hplus
  · rfl

theorem signed_toDigits {α : Type} [Neg α] (f : List Char → Option α) (n : ℕ) :
    signed f (Nat.toDigits 10 n) = f (Nat.toDigits 10 n) := by
  cases hds : Nat.toDigits 10 n with
  | nil => rfl
  | cons c cs =>
    obtain ⟨d, hd, rfl⟩ := mem_toDigits (by decide) (hds ▸ List.mem_cons_self)
    exact signed_digitChar f hd cs

theorem int_toString (i : ℤ) : int (toString i).toList = some i := by
  rw [int, strip_of_no_space fun c hc => (mem_toString hc).1, toList_toString]
  split
  · rename_i h
    rw [List.nil_append, signed_toDigits, nat_toDigits (by decide) (by decide), Option.map_some,
      Int.ofNat_eq_natCast, Int.natAbs_of_nonneg h]
  · rename_i h
    rw [List.singleton_append, signed, nat_toDigits (by decide) (by decide), Option.map_some,
      Option.map_some, Int.ofNat_eq_natCast, Int.ofNat_natAbs_of_nonpos (by omega), neg_neg]

theorem int_toDigits (n : ℕ) : int (Nat.toDigits 10 n) = some (n : ℤ) := by
  have h := int_toString n
  rwa [toList_toString, if_pos (Int.natCast_nonneg n), List.nil_append, Int.natAbs_natCast] at h

theorem digitCount_toDigits (n : ℕ) :
    digitCount (Nat.toDigits 10 n) = (Nat.toDigits 10 n).length := by
  refine List.countP_eq_length.mpr fun c hc => ?_
  obtain ⟨d, hd, rfl⟩ := mem_toDigits (by decide) hc
  rw [anyDigit_digitChar (by decide) hd, Option.isSome_some]

theorem shortInt_toDigits (n : ℕ) : shortInt (Nat.toDigits 10 n) =
    if n < 10 ^ maxDigits then some (n : ℤ) else none := by
  have hlength : digitCount (Nat.toDigits 10 n) ≤ maxDigits ↔ n < 10 ^ maxDigits := by
    rw [digitCount_toDigits]
    exact Nat.length_toDigits_le_iff (by decide) (by decide)
  rw [shortInt, int_toDigits]
  by_cases h : n < 10 ^ maxDigits
  · rw [if_pos h, if_neg (not_lt.mpr (hlength.mpr h))]
  · rw [if_neg h, if_pos (not_le.mp fun hle => h (hlength.mp hle))]

theorem float_toDigits (n : ℕ) : float (Nat.toDigits 10 n) = some (n : ℚ) := by
  have hplain : ∀ c ∈ Nat.toDigits 10 n, isSpace c = false ∧ c ≠ '.' ∧ c ≠ 'e' ∧ c ≠ 'E' := by
    intro c hc
    obtain ⟨d, hd, rfl⟩ := mem_toDigits (by decide) hc
    obtain ⟨hspace, -, hdot, -⟩ := digitChar_plain (d := d) (by omega)
    exact ⟨hspace, hdot, digitChar_ne_e hd⟩
  have hexponent : (Nat.toDigits 10 n).dropWhile
      (fun c => !(decide (c = 'e') || decide (c = 'E'))) = [] := by
    rw [List.dropWhile_eq_nil_iff]
    intro c hc
    simp [(hplain c hc).2.2]
  have hwhole : (Nat.toDigits 10 n).takeWhile (· ≠ '.') = Nat.toDigits 10 n := by
    rw [List.takeWhile_eq_self_iff]
    intro c hc
    simp [(hplain c hc).2.1]
  have hrest : (Nat.toDigits 10 n).dropWhile (· ≠ '.') = [] := by
    rw [List.dropWhile_eq_nil_iff]
    intro c hc
    simp [(hplain c hc).2.1]
  have hmantissa : mantissa (Nat.toDigits 10 n) = some (n : ℚ) := by
    simp only [mantissa, hwhole, hrest, List.tail_nil]
    cases hds : Nat.toDigits 10 n with
    | nil => exact absurd hds Nat.toDigits_ne_nil
    | cons c cs =>
      have hnat : nat 10 (c :: cs) = some n := by
        rw [← hds]
        exact nat_toDigits (by decide) (by decide) n
      simp only [hnat, Option.map_some]
  simp only [float, strip_of_no_space fun c hc => (hplain c hc).1, hexponent, signed_toDigits,
    hmantissa]

def decimal (negative : Bool) (n f : ℕ) : List Char :=
  (if negative then ['-'] else []) ++
    (Nat.toDigits 10 n ++ ['.', (f / 10).digitChar, (f % 10).digitChar])

theorem mantissa_decimal (n : ℕ) {f : ℕ} (hf : f < 100) :
    mantissa (Nat.toDigits 10 n ++ ['.', (f / 10).digitChar, (f % 10).digitChar]) =
      some ((n : ℚ) + f / 100) := by
  have hplain : '.' ∉ Nat.toDigits 10 n := by
    intro hc
    obtain ⟨d, hd, hdot⟩ := mem_toDigits (by decide) hc
    exact (digitChar_plain (d := d) (by omega)).2.2.1 hdot.symm
  have hnat : nat 10 [(f / 10).digitChar, (f % 10).digitChar] = some f := by
    have hunder := (digitChar_plain (d := f % 10) (by omega)).2.1
    have hten : ∀ d < 10, anyDigit 10 d.digitChar = some d :=
      fun d => anyDigit_digitChar (by decide)
    simp only [nat, moreDigits, hten (f / 10) (by omega), hten (f % 10) (by omega), hunder,
      if_false, Option.bind_some]
    simp [Nat.div_add_mod']
  have hplaces : ([(f / 10).digitChar, (f % 10).digitChar].filter (· ≠ '_')).length = 2 := by
    have hd := fun d (h : d < 16) => (digitChar_plain h).2.1
    simp [hd (f / 10) (by omega), hd (f % 10) (by omega)]
  have hwhole : nat 10 (Nat.toDigits 10 n) = some n := nat_toDigits (by decide) (by decide) n
  unfold mantissa
  rw [Scan.takeWhile_ne_append hplain, Scan.dropWhile_ne_append hplain]
  simp only [List.tail_cons]
  cases hds : Nat.toDigits 10 n with
  | nil => exact absurd hds Nat.toDigits_ne_nil
  | cons c cs =>
    rw [hds] at hwhole
    simp only [hwhole, hnat, Option.bind_some, Option.map_some]
    rw [hplaces]
    norm_num

theorem float_decimal (negative : Bool) (n : ℕ) {f : ℕ} (hf : f < 100) :
    float (decimal negative n f) = some ((if negative then -1 else 1) * ((n : ℚ) + f / 100)) := by
  have hplain : ∀ c ∈ decimal negative n f, isSpace c = false ∧ c ≠ 'e' ∧ c ≠ 'E' := by
    have hdigit : ∀ d < 10, isSpace (Nat.digitChar d) = false ∧ Nat.digitChar d ≠ 'e' ∧
        Nat.digitChar d ≠ 'E' := by decide
    intro c hc
    simp only [decimal, List.mem_append, List.mem_cons, List.not_mem_nil, or_false] at hc
    rcases hc with hc | hc | rfl | rfl | rfl
    · split at hc
      · obtain rfl := List.mem_singleton.mp hc
        decide
      · cases hc
    · obtain ⟨d, hd, rfl⟩ := mem_toDigits (by decide) hc
      exact hdigit d hd
    · decide
    · exact hdigit _ (by omega)
    · exact hdigit _ (by omega)
  have hexponent : (decimal negative n f).dropWhile
      (fun c => !(decide (c = 'e') || decide (c = 'E'))) = [] := by
    rw [List.dropWhile_eq_nil_iff]
    intro c hc
    simp [(hplain c hc).2]
  have hsigned : signed mantissa (decimal negative n f) =
      some ((if negative then -1 else 1) * ((n : ℚ) + f / 100)) := by
    cases negative with
    | true =>
      simp [decimal, signed, mantissa_decimal n hf]
    | false =>
      have hm := mantissa_decimal n hf
      rw [decimal, if_neg Bool.false_ne_true, List.nil_append]
      cases hds : Nat.toDigits 10 n with
      | nil => exact absurd hds Nat.toDigits_ne_nil
      | cons c cs =>
        obtain ⟨d, hd, rfl⟩ := mem_toDigits (by decide) (hds ▸ List.mem_cons_self)
        rw [hds] at hm
        rw [List.cons_append, signed_digitChar mantissa hd, ← List.cons_append, hm]
        simp
  simp only [float, strip_of_no_space fun c hc => (hplain c hc).1, hexponent, hsigned]

end Numerals
