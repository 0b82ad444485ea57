import Wifucked.Lib.Dotted
import Wifucked.Lib.Prefixes

/-!
# Addresses and blocks of both families, as texts

An address of IPv4 is four octets, one of IPv6 eight groups of hexadecimal
digits, where `::` stands for groups of zeros and the last two groups may be
four octets. A block is the addresses that begin like a given one.
-/

namespace Inet

inductive Address where
  | v4 (a : ℕ)
  | v6 (a : ℕ)
  deriving DecidableEq

def Address.IsV4 : Address → Prop
  | .v4 _ => True
  | .v6 _ => False

def digits (base : ℕ) (part : List Char) : Option ℕ :=
  if part ≠ [] ∧ part.all fun c => (Numerals.digit base c).isSome then
    some (part.foldl (fun v c => v * base + (Numerals.digit base c).getD 0) 0)
  else none

def group (part : List Char) : Option ℕ := if part.length ≤ 4 then digits 16 part else none

/-- The groups, of which the last may be four octets at the end of a text. -/
def groups (atEnd : Bool) : List (List Char) → Option (List ℕ)
  | [] => some []
  | part :: parts =>
    if atEnd ∧ parts = [] ∧ '.' ∈ part then
      (Dotted.number (String.ofList part)).map fun a => [a / 65536, a % 65536]
    else (group part).bind fun g => (groups atEnd parts).map (g :: ·)

def cut : List Char → Option (List Char × List Char)
  | ':' :: ':' :: rest => some ([], rest)
  | c :: rest => (cut rest).map fun (l, r) => (c :: l, r)
  | [] => none

def side (text : List Char) : List (List Char) := if text = [] then [] else text.splitOn ':'

def joined (gs : List ℕ) : ℕ := gs.foldl (fun v g => v * 65536 + g) 0

def v6 (text : List Char) : Option ℕ :=
  match cut text with
  | none => ((groups true (text.splitOn ':')).filter (·.length = 8)).map joined
  | some (l, r) => do
    let hi ← groups false (side l)
    let lo ← groups true (side r)
    if hi.length + lo.length < 8 then
      return joined (hi ++ List.replicate (8 - (hi.length + lo.length)) 0 ++ lo)
    else none

def read (text : List Char) : Option Address :=
  if ':' ∈ text then (v6 text).map .v6 else (Dotted.number (String.ofList text)).map .v4

inductive Block where
  | v4 (p : Prefix 32)
  | v6 (p : Prefix 128)

def Block.Covers : Block → Address → Prop
  | .v4 p, .v4 a => p.Covers a
  | .v6 p, .v6 a => p.Covers a
  | _, _ => False

/-- The addresses that agree with `a` in their first `length` bits. -/
def Address.block (length : ℕ) : Address → Option Block
  | .v4 a => if length ≤ 32 then some (.v4 (.ofAddress 32 a length)) else none
  | .v6 a => if length ≤ 128 then some (.v6 (.ofAddress 128 a length)) else none

def readBlock (text : List Char) : Option Block :=
  match text.splitOn '/' with
  | [address, length] => do
    let a ← read address
    let n ← digits 10 length
    a.block n
  | _ => none

-- ---------------------------------------------------------------------------
-- The characters of an address
-- ---------------------------------------------------------------------------

def Plain (c : Char) : Prop := c = ':' ∨ c = '.' ∨ (Numerals.digit 16 c).isSome

instance (c : Char) : Decidable (Plain c) :=
  inferInstanceAs (Decidable (c = ':' ∨ c = '.' ∨ (Numerals.digit 16 c).isSome))

theorem Plain.not_space (h : Plain c) : Numerals.isSpace c = false := by
  rcases h with rfl | rfl | h
  · decide
  · decide
  · by_contra hs
    rw [Numerals.digit_eq_none (by simpa using hs)] at h
    cases h

theorem mem_of_mem_text {text : List Char} (sep : Char) (h : c ∈ text) :
    c = sep ∨ ∃ part ∈ text.splitOn sep, c ∈ part := by
  induction text with
  | nil => cases h
  | cons d text ih =>
    rw [List.splitOn_cons_eq_if_modifyHead]
    split
    · rename_i hd
      rcases List.mem_cons.mp h with rfl | h
      · exact .inl (by simpa using hd)
      · exact (ih h).imp_right fun ⟨part, hpart, hc⟩ => ⟨part, List.mem_cons_of_mem _ hpart, hc⟩
    · obtain ⟨first, rest, hs⟩ := List.exists_cons_of_ne_nil (List.splitOn_ne_nil sep text)
      rw [hs, List.modifyHead_cons]
      rw [hs] at ih
      rcases List.mem_cons.mp h with rfl | h
      · exact .inr ⟨_, List.mem_cons_self, List.mem_cons_self⟩
      · refine (ih h).imp_right fun ⟨part, hpart, hc⟩ => ?_
        rcases List.mem_cons.mp hpart with rfl | hpart
        · exact ⟨_, List.mem_cons_self, List.mem_cons_of_mem _ hc⟩
        · exact ⟨part, List.mem_cons_of_mem _ hpart, hc⟩

theorem plain_of_digits (h : (digits 16 part).isSome) (hc : c ∈ part) : Plain c := by
  unfold digits at h
  split at h
  · rename_i hpart
    exact .inr (.inr (List.all_eq_true.mp hpart.2 c hc))
  · cases h

theorem digit_of_octet (h : (Dotted.octetValue part).isSome) (hc : c ∈ part) :
    (Numerals.digit 16 c).isSome := by
  obtain ⟨n, hn⟩ := Option.isSome_iff_exists.mp h
  obtain ⟨-, rfl⟩ := Dotted.octetValue_eq_some.mp hn
  rw [Numerals.toList_toString, if_pos (Int.natCast_nonneg n), List.nil_append] at hc
  obtain ⟨d, hd, rfl⟩ := Numerals.mem_toDigits (by decide) hc
  rw [Numerals.digit_digitChar (by decide) (by omega)]
  rfl

theorem mem_of_number (h : (Dotted.number (String.ofList text)).isSome) (hc : c ∈ text) :
    c = '.' ∨ (Numerals.digit 16 c).isSome := by
  rcases mem_of_mem_text '.' hc with hc | ⟨part, hpart, hc⟩
  · exact .inl hc
  · refine .inr (digit_of_octet ?_ hc)
    unfold Dotted.number Dotted.parts at h
    rw [String.toList_ofList] at h
    split at h
    · rename_i first second third last hparts
      obtain ⟨n, hn⟩ := Option.isSome_iff_exists.mp h
      obtain ⟨_, ha, hn⟩ := Option.bind_eq_some_iff.mp hn
      obtain ⟨_, hb, hn⟩ := Option.bind_eq_some_iff.mp hn
      obtain ⟨_, hc, hn⟩ := Option.bind_eq_some_iff.mp hn
      obtain ⟨_, hd, -⟩ := Option.bind_eq_some_iff.mp hn
      rw [hparts] at hpart
      simp only [List.mem_cons, List.not_mem_nil, or_false] at hpart
      rcases hpart with rfl | rfl | rfl | rfl
      · rw [ha]; rfl
      · rw [hb]; rfl
      · rw [hc]; rfl
      · rw [hd]; rfl
    · cases h

theorem plain_of_groups {atEnd : Bool} {parts : List (List Char)}
    (h : (groups atEnd parts).isSome) (hpart : part ∈ parts) (hc : c ∈ part) : Plain c := by
  induction parts with
  | nil => cases hpart
  | cons first parts ih =>
    rw [groups] at h
    split at h
    · rename_i hlast
      obtain rfl : part = first := by simpa [hlast.2.1] using hpart
      exact .inr (mem_of_number (by simpa using h) hc)
    · obtain ⟨gs, hgs⟩ := Option.isSome_iff_exists.mp h
      obtain ⟨g, hg, hgs⟩ := Option.bind_eq_some_iff.mp hgs
      obtain ⟨rest, hrest, -⟩ := Option.map_eq_some_iff.mp hgs
      rcases List.mem_cons.mp hpart with rfl | hpart
      · unfold group at hg
        split at hg
        · exact plain_of_digits (by simp [hg]) hc
        · cases hg
      · exact ih (by simp [hrest]) hpart

theorem eq_of_cut (h : cut text = some (l, r)) : text = l ++ ':' :: ':' :: r := by
  fun_induction cut text generalizing l with
  | case1 rest => cases h; rfl
  | case2 d rest _ ih =>
    obtain ⟨⟨l', r'⟩, hcut, heq⟩ := Option.map_eq_some_iff.mp h
    cases heq
    exact congrArg (d :: ·) (ih hcut)
  | case3 => cases h

theorem plain_of_side {atEnd : Bool} (h : (groups atEnd (side text)).isSome) (hc : c ∈ text) :
    Plain c := by
  rw [side, if_neg (List.ne_nil_of_mem hc)] at h
  rcases mem_of_mem_text ':' hc with hc | ⟨part, hpart, hc⟩
  · exact .inl hc
  · exact plain_of_groups h hpart hc

theorem plain_of_v6 (h : (v6 text).isSome) (hc : c ∈ text) : Plain c := by
  unfold v6 at h
  split at h
  · rename_i hcut
    rw [Option.isSome_map] at h
    have hside : (groups true (side text)).isSome := by
      rw [side, if_neg (List.ne_nil_of_mem hc)]
      exact Option.isSome_of_isSome_filter _ _ h
    exact plain_of_side hside hc
  · rename_i l r hcut
    obtain ⟨a, ha⟩ := Option.isSome_iff_exists.mp h
    obtain ⟨hi, hhi, ha⟩ := Option.bind_eq_some_iff.mp ha
    obtain ⟨lo, hlo, -⟩ := Option.bind_eq_some_iff.mp ha
    rw [eq_of_cut hcut] at hc
    rcases List.mem_append.mp hc with hc | hc
    · exact plain_of_side (by rw [hhi]; rfl) hc
    · rcases List.mem_cons.mp hc with hc | hc
      · exact .inl hc
      · rcases List.mem_cons.mp hc with hc | hc
        · exact .inl hc
        · exact plain_of_side (by rw [hlo]; rfl) hc

theorem plain_of_read (h : read text = some a) (hc : c ∈ text) : Plain c := by
  unfold read at h
  split at h
  · obtain ⟨v, hv, -⟩ := Option.map_eq_some_iff.mp h
    exact plain_of_v6 (by rw [hv]; rfl) hc
  · obtain ⟨v, hv, -⟩ := Option.map_eq_some_iff.mp h
    exact .inr (mem_of_number (by rw [hv]; rfl) hc)

theorem Plain.ne (h : Plain c) : c ≠ '[' ∧ c ≠ ']' ∧ c ≠ '/' ∧ c ≠ '%' := by
  refine ⟨?_, ?_, ?_, ?_⟩ <;>
  · rintro rfl
    revert h
    decide

theorem colon_of_v6 (h : v6 text = some a) : ':' ∈ text := by
  unfold v6 at h
  split at h
  · by_contra hcolon
    rw [List.splitOn_eq_singleton hcolon] at h
    obtain ⟨gs, hgs, -⟩ := Option.map_eq_some_iff.mp h
    obtain ⟨hgs, hlength⟩ := Option.filter_eq_some_iff.mp hgs
    have hfew : gs.length ≤ 2 := by
      rw [groups] at hgs
      split at hgs
      · obtain ⟨_, -, rfl⟩ := Option.map_eq_some_iff.mp hgs
        exact le_rfl
      · obtain ⟨_, -, hgs⟩ := Option.bind_eq_some_iff.mp hgs
        obtain rfl := Option.some.inj hgs
        exact Nat.le_succ 1
    exact absurd (of_decide_eq_true hlength) (by omega)
  · rename_i hcut
    simp [eq_of_cut hcut]

theorem read_v6 (h : v6 text = some a) : read text = some (.v6 a) := by
  rw [read, if_pos (colon_of_v6 h), h, Option.map_some]

theorem read_v4 (h : Dotted.number (String.ofList text) = some a) : read text = some (.v4 a) := by
  have hcolon : ':' ∉ text := fun hc => by
    rcases mem_of_number (by rw [h]; rfl) hc with hc | hc
    · exact absurd hc (by decide)
    · exact absurd hc (by decide)
  rw [read, if_neg hcolon, h, Option.map_some]

-- ---------------------------------------------------------------------------
-- Blocks
-- ---------------------------------------------------------------------------

theorem readBlock_append {address length : List Char} (ha : '/' ∉ address) (hl : '/' ∉ length) :
    readBlock (address ++ '/' :: length) =
      (read address).bind fun a => (digits 10 length).bind a.block := by
  rw [readBlock, List.splitOn_append_cons_self_of_not_mem ha, List.splitOn_eq_singleton hl]
  rfl

theorem block_covers_iff (a : Address) :
    (∃ b, a.block 32 = some b ∧ ∀ x, b.Covers x ↔ x = a) ↔ a.IsV4 := by
  cases a with
  | v4 a =>
    refine iff_of_true ⟨_, rfl, fun x => ?_⟩ trivial
    cases x with
    | v4 x => simp [Block.Covers, Prefix.covers_ofAddress]
    | v6 x => simp [Block.Covers]
  | v6 a =>
    refine iff_of_false ?_ (fun h => h)
    rintro ⟨b, hb, hcovers⟩
    obtain rfl := Option.some.inj hb
    -- The address that differs in its last bit is covered as well.
    obtain ⟨x, hx, hne⟩ : ∃ x, x / 2 ^ 96 = a / 2 ^ 96 ∧ x ≠ a :=
      ⟨if a % 2 = 0 then a + 1 else a - 1, by split <;> omega, by split <;> omega⟩
    exact hne (Address.v6.inj ((hcovers (.v6 x)).mp hx))

end Inet
