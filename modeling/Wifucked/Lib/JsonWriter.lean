import Mathlib.Tactic.IntervalCases
import Wifucked.Lib.JsonText

/-!
# Writing JSON

What Python's `json.dumps` makes of a value, all of it in ASCII, and that
`JsonText.loads` reads it back. Only a high surrogate that stands right before a
low one does not come back: the two are read as one character.
-/

namespace JsonText

-- ---------------------------------------------------------------------------
-- Strings
-- ---------------------------------------------------------------------------

def hexDigit (d : ℕ) : ℕ := (Nat.digitChar d).toNat

def escapeUnit (n : ℕ) : Text :=
  ['\\'.toNat, 'u'.toNat, hexDigit (n / 16 ^ 3 % 16), hexDigit (n / 16 ^ 2 % 16),
    hexDigit (n / 16 % 16), hexDigit (n % 16)]

def highUnit (c : ℕ) : ℕ := 0xD800 + (c - 0x10000) / 0x400 % 0x400

def lowUnit (c : ℕ) : ℕ := 0xDC00 + (c - 0x10000) % 0x400

def escapeChar (c : ℕ) : Text :=
  if c = '"'.toNat then text "\\\""
  else if c = '\\'.toNat then text "\\\\"
  else if c = '\n'.toNat then text "\\n"
  else if c = '\r'.toNat then text "\\r"
  else if c = '\t'.toNat then text "\\t"
  else if c = 12 then text "\\f"
  else if c = 8 then text "\\b"
  else if 0x20 ≤ c ∧ c ≤ 0x7E then [c]
  else if c < 0x10000 then escapeUnit c
  else escapeUnit (highUnit c) ++ escapeUnit (lowUnit c)

def quote (s : Text) : Text := '"'.toNat :: s.flatMap escapeChar ++ ['"'.toNat]

-- ---------------------------------------------------------------------------
-- Values
-- ---------------------------------------------------------------------------

def isBlank (c : ℕ) : Bool := c = 0x20 || c = 0x0A || c = 0x0D || c = 0x09

def writeNat (n : ℕ) : Text := (Nat.toDigits 10 n).map Char.toNat

def writeInt (i : ℤ) : Text := if i < 0 then '-'.toNat :: writeNat i.natAbs else writeNat i.natAbs

/-- The white space at each level, after an opening bracket, after a comma and
before the closing bracket, and that after a colon. -/
structure Layout where
  first : ℕ → Text
  next : ℕ → Text
  last : ℕ → Text
  colon : Text
  blank_first : ∀ n, ∀ c ∈ first n, isBlank c = true
  blank_next : ∀ n, ∀ c ∈ next n, isBlank c = true
  blank_last : ∀ n, ∀ c ∈ last n, isBlank c = true
  blank_colon : ∀ c ∈ colon, isBlank c = true

mutual

/-- A value at a level. The literal of a float is what `repr` gives. -/
def write (layout : Layout) (level : ℕ) : Value → Text
  | .null => text "null"
  | .bool true => text "true"
  | .bool false => text "false"
  | .int i => writeInt i
  | .float literal => literal
  | .string s => quote s
  | .array [] => text "[]"
  | .array (v :: vs) =>
    '['.toNat :: layout.first level ++ write layout (level + 1) v ++ writeItems layout level vs
  | .object [] => ['\x7b'.toNat, '\x7d'.toNat]
  | .object ((name, v) :: fields) =>
    '\x7b'.toNat :: layout.first level ++ quote name ++ ':'.toNat :: layout.colon ++
      write layout (level + 1) v ++ writeFields layout level fields

def writeItems (layout : Layout) (level : ℕ) : List Value → Text
  | [] => layout.last level ++ [']'.toNat]
  | v :: vs =>
    ','.toNat :: layout.next level ++ write layout (level + 1) v ++ writeItems layout level vs

def writeFields (layout : Layout) (level : ℕ) : List (Text × Value) → Text
  | [] => layout.last level ++ ['\x7d'.toNat]
  | (name, v) :: fields =>
    ','.toNat :: layout.next level ++ quote name ++ ':'.toNat :: layout.colon ++
      write layout (level + 1) v ++ writeFields layout level fields

end

theorem isBlank_newline (width : ℕ) :
    ∀ c ∈ '\n'.toNat :: List.replicate width ' '.toNat, isBlank c = true := by
  simp only [List.forall_mem_cons]
  refine ⟨rfl, fun c hc => ?_⟩
  rw [List.eq_of_mem_replicate hc]
  rfl

/-- `indent=width`. -/
def indented (width : ℕ) : Layout where
  first level := '\n'.toNat :: List.replicate (width * (level + 1)) ' '.toNat
  next level := '\n'.toNat :: List.replicate (width * (level + 1)) ' '.toNat
  last level := '\n'.toNat :: List.replicate (width * level) ' '.toNat
  colon := [' '.toNat]
  blank_first _ := isBlank_newline _
  blank_next _ := isBlank_newline _
  blank_last _ := isBlank_newline _
  blank_colon := by simp [isBlank]

def oneLine : Layout where
  first _ := []
  next _ := [' '.toNat]
  last _ := []
  colon := [' '.toNat]
  blank_first _ := by simp
  blank_next _ := by simp [isBlank]
  blank_last _ := by simp
  blank_colon := by simp [isBlank]

/-- No white space at all. -/
def compact : Layout where
  first _ := []
  next _ := []
  last _ := []
  colon := []
  blank_first _ := by simp
  blank_next _ := by simp
  blank_last _ := by simp
  blank_colon := by simp

mutual

def Value.ints : Value → List ℤ
  | .int i => [i]
  | .array items => itemInts items
  | .object fields => fieldInts fields
  | _ => []

def itemInts : List Value → List ℤ
  | [] => []
  | v :: vs => v.ints ++ itemInts vs

def fieldInts : List (Text × Value) → List ℤ
  | [] => []
  | (_, v) :: fields => v.ints ++ fieldInts fields

end

/-- `str` of a number has a limit, as `int` has. -/
def short (i : ℤ) : Bool := (writeNat i.natAbs).length ≤ Numerals.maxDigits

def dumps (layout : Layout) (v : Value) : Except Raised Text :=
  if v.ints.all short then .ok (write layout 0 v) else .error .valueError

def named (fields : List (String × Value)) : Value :=
  .object (fields.map fun f => (text f.1, f.2))

-- ---------------------------------------------------------------------------
-- What a written value is read as
-- ---------------------------------------------------------------------------

def isHigh (c : ℕ) : Bool := 0xD800 ≤ c ∧ c ≤ 0xDBFF

def isLow (c : ℕ) : Bool := 0xDC00 ≤ c ∧ c ≤ 0xDFFF

theorem isHigh_iff : isHigh c = true ↔ 0xD800 ≤ c ∧ c ≤ 0xDBFF := by simp [isHigh]

theorem isLow_iff : isLow c = true ↔ 0xDC00 ≤ c ∧ c ≤ 0xDFFF := by simp [isLow]

/-- The character that two surrogates stand for. -/
def pair (high low : ℕ) : ℕ := 0x10000 + (high - 0xD800) * 0x400 + (low - 0xDC00)

def joined : Text → Text
  | [] => []
  | [c] => [c]
  | c :: d :: rest =>
    if isHigh c && isLow d then pair c d :: joined rest else c :: joined (d :: rest)

mutual

def Value.joined : Value → Value
  | .string s => .string (JsonText.joined s)
  | .array items => .array (joinedItems items)
  | .object fields => .object (joinedFields fields)
  | v => v

def joinedItems : List Value → List Value
  | [] => []
  | v :: vs => v.joined :: joinedItems vs

def joinedFields : List (Text × Value) → List (Text × Value)
  | [] => []
  | (name, v) :: fields => (joined name, v.joined) :: joinedFields fields

end

def Plain (s : Text) : Prop := ∀ c ∈ s, c < 0x110000

/-- The text is a float to the reader, and all of it. -/
def Literal (t : Text) : Prop := tokens .between t = [.scalar (.float t)]

mutual

/-- What Python can write so that it can be read: with so much room for containers. -/
def Fits (room : ℕ) : Value → Prop
  | .int i => short i = true
  | .float literal => Literal literal
  | .string s => Plain s
  | .array items => 0 < room ∧ FitItems (room - 1) items
  | .object fields => 0 < room ∧ FitFields (room - 1) fields
  | _ => True

def FitItems (room : ℕ) : List Value → Prop
  | [] => True
  | v :: vs => Fits room v ∧ FitItems room vs

def FitFields (room : ℕ) : List (Text × Value) → Prop
  | [] => True
  | (name, v) :: fields => Plain name ∧ Fits room v ∧ FitFields room fields

end

-- ---------------------------------------------------------------------------
-- Tokens of strings
-- ---------------------------------------------------------------------------

theorem tokens_blank (h : ∀ c ∈ w, isBlank c = true) (t : Text) :
    tokens .between (w ++ t) = tokens .between t := by
  induction w with
  | nil => rfl
  | cons c w ih =>
    rw [List.forall_mem_cons] at h
    have hc : start c = ([], .between) := by
      have hcases := h.1
      simp only [isBlank, Bool.or_eq_true, decide_eq_true_eq] at hcases
      obtain ((rfl | rfl) | rfl) | rfl := hcases <;> rfl
    rw [List.cons_append, tokens, next, hc, List.nil_append, ih h.2]

theorem digit_hexDigit (h : d < 16) : Numerals.digit 16 (Char.ofNat (hexDigit d)) = some d := by
  rw [hexDigit, Char.ofNat_toNat]
  exact Numerals.digit_digitChar le_rfl h

theorem tokens_unicode (h : d < 16) (hleft : 1 < left) (s : Text) (high : Bool) (value : ℕ)
    (t : Text) :
    tokens (.unicode s high left value) (hexDigit d :: t) =
      tokens (.unicode s high (left - 1) (value * 16 + d)) t := by
  simp [tokens, next, digit_hexDigit h, hleft.not_ge]

theorem tokens_unicode_last (h : d < 16) (s : Text) (high : Bool) (value : ℕ) (t : Text) :
    tokens (.unicode s high 1 value) (hexDigit d :: t) =
      tokens (addUnit s high (value * 16 + d)) t := by
  simp [tokens, next, digit_hexDigit h]

theorem tokens_escapeUnit (h : n < 0x10000) (s : Text) (high : Bool) (t : Text) :
    tokens (.string s high) (escapeUnit n ++ t) = tokens (addUnit s high n) t := by
  have hlt : ∀ m, m % 16 < 16 := fun m => Nat.mod_lt _ (by omega)
  have hvalue : (((0 * 16 + n / 16 ^ 3 % 16) * 16 + n / 16 ^ 2 % 16) * 16 + n / 16 % 16) * 16 +
      n % 16 = n := by omega
  have hopen : ∀ rest, tokens (.string s high) ('\\'.toNat :: 'u'.toNat :: rest) =
      tokens (.unicode s high 4 0) rest := fun rest => rfl
  simp only [escapeUnit, List.cons_append, List.nil_append]
  rw [hopen, tokens_unicode (hlt _) (by omega), tokens_unicode (hlt _) (by omega),
    tokens_unicode (hlt _) (by omega), tokens_unicode_last (hlt _), hvalue]

/-- Reading a character, after what was read before: it may be the second half of a pair. -/
def push (s : Text) (high : Bool) (c : ℕ) : Text × Bool :=
  match s with
  | first :: rest =>
    if high && isLow c then (pair first c :: rest, false) else (c :: s, isHigh c)
  | [] => ([c], isHigh c)

theorem addUnit_eq (s : Text) (high : Bool) (c : ℕ) :
    addUnit s high c = .string (push s high c).1 (push s high c).2 := by
  cases s with
  | nil => rfl
  | cons first rest =>
    have hboth : (high && isLow c) = true ↔ high = true ∧ 0xDC00 ≤ c ∧ c ≤ 0xDFFF := by
      rw [Bool.and_eq_true, isLow_iff]
    simp only [addUnit, push, hboth]
    split <;> rfl

theorem push_of_not_low (h : isLow c = false) (s : Text) (high : Bool) :
    push s high c = (c :: s, isHigh c) := by
  cases s <;> simp [push, h]

theorem units_of_large (h : 0x10000 ≤ c) (hc : c < 0x110000) :
    (0xD800 ≤ highUnit c ∧ highUnit c ≤ 0xDBFF) ∧ (0xDC00 ≤ lowUnit c ∧ lowUnit c ≤ 0xDFFF) ∧
      pair (highUnit c) (lowUnit c) = c := by
  unfold pair highUnit lowUnit
  omega

theorem next_string (hquote : c ≠ '"'.toNat) (hslash : c ≠ '\\'.toNat) (h : 0x20 ≤ c) (s : Text)
    (high : Bool) : next (.string s high) c = ([], .string (c :: s) false) := by
  rw [next, if_neg hquote, if_neg hslash, if_neg h.not_gt]

theorem escapeChar_of_large (h : 0x10000 ≤ c) :
    escapeChar c = escapeUnit (highUnit c) ++ escapeUnit (lowUnit c) := by
  simp only [escapeChar, Char.reduceToNat]
  repeat rw [if_neg (by omega)]

theorem plain_of (h : c < 0xD800 ∨ 0xDFFF < c) : isHigh c = false ∧ isLow c = false := by
  rw [← Bool.not_eq_true, ← Bool.not_eq_true, isHigh_iff, isLow_iff]
  omega

theorem tokens_escapeChar_of_large (hlarge : 0x10000 ≤ c) (h : c < 0x110000) (s : Text)
    (high : Bool) (t : Text) :
    tokens (.string s high) (escapeChar c ++ t) =
      tokens (.string (push s high c).1 (push s high c).2) t := by
  obtain ⟨hhigh, hlow, hpair⟩ := units_of_large hlarge h
  have hnot : isLow (highUnit c) = false := by
    rw [← Bool.not_eq_true, isLow_iff]
    omega
  obtain ⟨hself, hplain⟩ := plain_of (c := c) (.inr (by omega))
  rw [escapeChar_of_large hlarge, List.append_assoc, tokens_escapeUnit (by omega), addUnit_eq,
    push_of_not_low hnot, tokens_escapeUnit (by omega), addUnit_eq, push_of_not_low hplain]
  simp [push, isHigh_iff.mpr hhigh, isLow_iff.mpr hlow, hpair, hself]

theorem tokens_escapeChar (h : c < 0x110000) (s : Text) (high : Bool) (t : Text) :
    tokens (.string s high) (escapeChar c ++ t) =
      tokens (.string (push s high c).1 (push s high c).2) t := by
  by_cases hlarge : 0x10000 ≤ c
  · exact tokens_escapeChar_of_large hlarge h s high t
  · rw [not_le] at hlarge
    have hplain : c < 0xD800 → push s high c = (c :: s, false) := by
      intro hc
      obtain ⟨hhigh, hlow⟩ := plain_of (.inl hc)
      rw [push_of_not_low hlow, hhigh]
    unfold escapeChar
    split_ifs with h1 h2 h3 h4 h5 h6 h7 h8
    · subst h1; rw [hplain (by decide)]; rfl
    · subst h2; rw [hplain (by decide)]; rfl
    · subst h3; rw [hplain (by decide)]; rfl
    · subst h4; rw [hplain (by decide)]; rfl
    · subst h5; rw [hplain (by decide)]; rfl
    · subst h6; rw [hplain (by decide)]; rfl
    · subst h7; rw [hplain (by decide)]; rfl
    · rw [hplain (by omega), List.singleton_append, tokens, next_string h1 h2 h8.1]
      rfl
    · rw [tokens_escapeUnit hlarge, addUnit_eq]

theorem joined_cons_of_not_high (h : isHigh c = false) (t : Text) :
    joined (c :: t) = c :: joined t := by
  cases t with
  | nil => rfl
  | cons d rest => simp [joined, h]

def pushAll (s : Text) (high : Bool) : Text → Text
  | [] => s
  | c :: t => pushAll (push s high c).1 (push s high c).2 t

theorem reverse_pushAll (t s : Text) :
    (pushAll s false t).reverse = s.reverse ++ joined t ∧
      ∀ c, isHigh c = true →
        (pushAll (c :: s) true t).reverse = s.reverse ++ joined (c :: t) := by
  induction t generalizing s with
  | nil => simp [pushAll, joined]
  | cons d t ih =>
    have hfirst : ∀ s, (pushAll (d :: s) (isHigh d) t).reverse = s.reverse ++ joined (d :: t) := by
      intro s
      cases hd : isHigh d with
      | true => exact (ih s).2 d hd
      | false => rw [(ih (d :: s)).1, joined_cons_of_not_high hd]; simp
    constructor
    · have hpush : push s false d = (d :: s, isHigh d) := by cases s <;> simp [push]
      rw [pushAll, hpush, hfirst]
    · intro c hc
      cases hlow : isLow d with
      | true =>
        have hpush : push (c :: s) true d = (pair c d :: s, false) := by simp [push, hlow]
        rw [pushAll, hpush, (ih _).1]
        simp [joined, hc, hlow]
      | false =>
        rw [pushAll, push_of_not_low hlow, hfirst]
        simp [joined, hlow]

theorem tokens_chars (h : Plain t) (s : Text) (high : Bool) :
    tokens (.string s high) (t.flatMap escapeChar ++ ['"'.toNat]) =
      [.string (pushAll s high t).reverse] := by
  induction t generalizing s high with
  | nil => rfl
  | cons c t ih =>
    rw [Plain, List.forall_mem_cons] at h
    rw [List.flatMap_cons, List.append_assoc, tokens_escapeChar h.1, ih h.2, pushAll]

theorem tokens_quote (h : Plain s) : tokens .between (quote s) = [.string (joined s)] := by
  have hopen : tokens .between (quote s) =
      tokens (.string [] false) (s.flatMap escapeChar ++ ['"'.toNat]) := rfl
  rw [hopen, tokens_chars h, (reverse_pushAll s []).1, List.reverse_nil, List.nil_append]

-- ---------------------------------------------------------------------------
-- Tokens in a row
-- ---------------------------------------------------------------------------

def delimiters : Text := [0x20, 0x0A, 0x0D, 0x09, 0x2C, 0x3A, 0x5D, 0x7D]

/-- What follows a token begins with no character that could go on with it. -/
def Delimited (t : Text) : Prop := ∀ c ∈ t.head?, c ∈ delimiters

theorem stuck_of_start (h : (start c).2 = .stuck) : Token.bad ∈ (start c).1 := by
  unfold start at h ⊢
  split <;> simp_all
  split <;> simp_all

theorem stuck_of_afterWhole (h : (afterWhole negative digits c).2 = .stuck) :
    Token.bad ∈ (afterWhole negative digits c).1 := by
  unfold afterWhole at h ⊢
  split_ifs at h ⊢
  exact List.mem_cons_of_mem _ (stuck_of_start h)

theorem stuck_of_escaped (h : (escaped s high c).2 = .stuck) :
    Token.bad ∈ (escaped s high c).1 := by
  unfold escaped at h ⊢
  split <;> simp_all

/-- The reader goes on after all but what is wrong. -/
theorem stuck_of_next (h : (next mode c).2 = .stuck) :
    mode = .stuck ∨ Token.bad ∈ (next mode c).1 := by
  cases mode with
  | stuck => exact .inl rfl
  | between => exact .inr (stuck_of_start h)
  | escape s high => exact .inr (stuck_of_escaped h)
  | zero negative => exact .inr (stuck_of_afterWhole h)
  | word rest token =>
    cases rest with
    | nil => exact .inr (List.mem_cons_of_mem _ (stuck_of_start h))
    | cons w rest =>
      simp only [next] at h ⊢
      split_ifs at h ⊢
      exact .inr (List.mem_singleton_self _)
  | unicode s high left value =>
    cases hd : Numerals.digit 16 (Char.ofNat c) with
    | none => simp [next, hd]
    | some d =>
      simp only [next, hd] at h
      split_ifs at h
      simp [addUnit_eq] at h
  | whole negative digits =>
    simp only [next] at h ⊢
    split_ifs at h ⊢
    exact .inr (stuck_of_afterWhole h)
  | fraction literal =>
    simp only [next] at h ⊢
    split_ifs at h ⊢
    exact .inr (List.mem_cons_of_mem _ (stuck_of_start h))
  | power literal =>
    simp only [next] at h ⊢
    split_ifs at h ⊢
    exact .inr (List.mem_cons_of_mem _ (stuck_of_start h))
  | _ =>
    simp only [next] at h ⊢
    split_ifs at h ⊢
    all_goals simp

theorem plain_of_delimiter (h : c ∈ delimiters) :
    isDigit c = false ∧ c ≠ '.'.toNat ∧ c ≠ 'e'.toNat ∧ c ≠ 'E'.toNat := by
  revert c
  decide

theorem afterWhole_of_delimiter (h : c ∈ delimiters) (negative : Bool) (digits : Text) :
    afterWhole negative digits c = (number negative digits :: (start c).1, (start c).2) := by
  obtain ⟨-, hpoint, hplain⟩ := plain_of_delimiter h
  rw [afterWhole, if_neg hpoint, if_neg (by simp only [hplain, or_self, not_false_eq_true])]
  rfl

theorem tokens_of_finish (hmode : mode ≠ .stuck) (hbad : Token.bad ∉ finish mode)
    (h : Delimited t) : tokens mode t = finish mode ++ tokens .between t := by
  cases t with
  | nil => simp [tokens, finish]
  | cons c t =>
    have hc : c ∈ delimiters := h c rfl
    obtain ⟨hdigit, -, hplain⟩ := plain_of_delimiter hc
    cases mode with
    | between => rfl
    | stuck => exact absurd rfl hmode
    | word rest token =>
      cases rest with
      | nil => rfl
      | cons w rest => simp [finish] at hbad
    | zero negative => simp [tokens, next, finish, afterWhole_of_delimiter hc]
    | whole negative digits => simp [tokens, next, finish, hdigit, afterWhole_of_delimiter hc]
    | fraction literal =>
      simp only [tokens, next, finish, hdigit, hplain, or_self, if_false, Bool.false_eq_true]
      rfl
    | power literal =>
      simp only [tokens, next, finish, hdigit, if_false, Bool.false_eq_true]
      rfl
    | _ => simp [finish] at hbad

/-- Where a text is all tokens, those of what follows it come after them. -/
theorem tokens_append (hmode : mode ≠ .stuck) (hbad : Token.bad ∉ tokens mode s)
    (h : Delimited t) : tokens mode (s ++ t) = tokens mode s ++ tokens .between t := by
  induction s generalizing mode with
  | nil => exact tokens_of_finish hmode hbad h
  | cons c s ih =>
    simp only [tokens, List.mem_append, not_or] at hbad
    have hnext : (next mode c).2 ≠ .stuck := by
      intro hstuck
      rcases stuck_of_next hstuck with hm | hm
      · exact hmode hm
      · exact hbad.1 hm
    simp only [List.cons_append, tokens, ih hnext hbad.2, List.append_assoc]

theorem isBlank_iff : isBlank c = true ↔ c ∈ [0x20, 0x0A, 0x0D, 0x09] := by
  simp [isBlank, or_assoc]

theorem delimited_append (hw : ∀ c ∈ w, isBlank c = true) (ht : Delimited t) :
    Delimited (w ++ t) := by
  cases w with
  | nil => exact ht
  | cons c w =>
    intro d hd
    obtain rfl : c = d := Option.some.inj hd
    have hc := isBlank_iff.mp (hw c (by simp))
    simp only [delimiters, List.mem_cons, List.not_mem_nil, or_false] at hc ⊢
    tauto

theorem delimited_cons (h : c ∈ delimiters) (t : Text) : Delimited (c :: t) := by
  intro d hd
  obtain rfl : c = d := Option.some.inj hd
  exact h

-- ---------------------------------------------------------------------------
-- Numbers
-- ---------------------------------------------------------------------------

theorem tokens_whole (h : ∀ c ∈ ds, isDigit c = true) (negative : Bool) (digits : Text) :
    tokens (.whole negative digits) ds = [.digits negative (digits.reverse ++ ds)] := by
  induction ds generalizing digits with
  | nil => simp [tokens, finish, number]
  | cons c ds ih =>
    rw [List.forall_mem_cons] at h
    simp [tokens, next, h.1, ih h.2]

theorem mem_writeNat (h : c ∈ writeNat n) : ∃ d < 10, c = 48 + d := by
  obtain ⟨char, hchar, rfl⟩ := List.mem_map.mp h
  obtain ⟨d, hd, rfl⟩ := Numerals.mem_toDigits (by omega) hchar
  exact ⟨d, hd, Nat.toNat_digitChar_of_lt_ten hd⟩

theorem isDigit_of_mem_writeNat (h : c ∈ writeNat n) : isDigit c = true := by
  obtain ⟨d, hd, rfl⟩ := mem_writeNat h
  simp [isDigit]
  omega

theorem writeNat_of_pos (h : 0 < n) :
    ∃ d rest, writeNat n = (48 + d) :: rest ∧ 0 < d ∧ d < 10 := by
  induction n using Nat.strong_induction_on with
  | _ n ih =>
    rw [writeNat, Nat.toDigits_eq_if (by omega)]
    split
    · rename_i hn
      refine ⟨n, [], ?_, h, hn⟩
      rw [List.map_singleton, Nat.toNat_digitChar_of_lt_ten hn]
    · rename_i hn
      obtain ⟨d, rest, hd, hpos, hlt⟩ := ih (n / 10) (by omega) (by omega)
      refine ⟨d, rest ++ [(Nat.digitChar (n % 10)).toNat], ?_, hpos, hlt⟩
      rw [List.map_append, ← writeNat, hd]
      rfl

theorem decimal_writeNat (n : ℕ) : decimal (writeNat n) = n := by
  have h := Nat.ofDigitChars_toDigits (b := 10) (n := n) (by omega) (by omega)
  rw [Nat.ofDigitChars_eq_foldl] at h
  rw [decimal, writeNat, List.foldl_map]
  simpa [Nat.mul_comm] using h

theorem tokens_digits (h : 0 < n) (negative : Bool) :
    tokens (if negative then .minus else .between) (writeNat n) =
      [.digits negative (writeNat n)] := by
  obtain ⟨d, rest, hd, hpos, hlt⟩ := writeNat_of_pos h
  have hrest : ∀ c ∈ rest, isDigit c = true :=
    fun c hc => isDigit_of_mem_writeNat (n := n) (hd ▸ List.mem_cons_of_mem _ hc)
  have hnext : next (if negative then .minus else .between) (48 + d) =
      ([], .whole negative [48 + d]) := by
    cases negative <;> interval_cases d <;> rfl
  rw [hd, tokens, hnext, tokens_whole hrest]
  rfl

theorem tokens_writeInt (i : ℤ) :
    tokens .between (writeInt i) = [.digits (decide (i < 0)) (writeNat i.natAbs)] := by
  by_cases hneg : i < 0
  · have hdigits := tokens_digits (n := i.natAbs) (by omega) true
    simp only [writeInt, hneg, if_true, decide_true]
    exact hdigits
  · simp only [writeInt, hneg, if_false, decide_false]
    by_cases hzero : i = 0
    · subst hzero
      rfl
    · exact tokens_digits (n := i.natAbs) (by omega) false

theorem int_writeNat (i : ℤ) : int (decide (i < 0)) (writeNat i.natAbs) = i := by
  rw [int, decimal_writeNat]
  split
  · rename_i h
    simp only [decide_eq_true_eq] at h
    omega
  · rename_i h
    simp only [decide_eq_true_eq] at h
    omega

-- ---------------------------------------------------------------------------
-- Values
-- ---------------------------------------------------------------------------

mutual

/-- The tokens of a value, whatever its layout. -/
def Value.tokens : Value → List Token
  | .null => [.scalar .null]
  | .bool b => [.scalar (.bool b)]
  | .int i => [.digits (decide (i < 0)) (writeNat i.natAbs)]
  | .float literal => [.scalar (.float literal)]
  | .string s => [.string (JsonText.joined s)]
  | .array [] => [.openArray, .closeArray]
  | .array (v :: vs) => .openArray :: (v.tokens ++ itemTokens vs)
  | .object [] => [.openObject, .closeObject]
  | .object ((name, v) :: fields) =>
    .openObject :: .string (JsonText.joined name) :: .colon :: (v.tokens ++ fieldTokens fields)

def itemTokens : List Value → List Token
  | [] => [.closeArray]
  | v :: vs => .comma :: (v.tokens ++ itemTokens vs)

def fieldTokens : List (Text × Value) → List Token
  | [] => [.closeObject]
  | (name, v) :: fields =>
    .comma :: .string (JsonText.joined name) :: .colon :: (v.tokens ++ fieldTokens fields)

end

mutual

theorem bad_not_mem_tokens : ∀ v : Value, Token.bad ∉ v.tokens
  | .null => by simp [Value.tokens]
  | .bool _ => by simp [Value.tokens]
  | .int _ => by simp [Value.tokens]
  | .float _ => by simp [Value.tokens]
  | .string _ => by simp [Value.tokens]
  | .array [] => by simp [Value.tokens]
  | .array (v :: vs) => by simp [Value.tokens, bad_not_mem_tokens v, bad_not_mem_itemTokens vs]
  | .object [] => by simp [Value.tokens]
  | .object ((_, v) :: fields) => by
    simp [Value.tokens, bad_not_mem_tokens v, bad_not_mem_fieldTokens fields]

theorem bad_not_mem_itemTokens : ∀ vs : List Value, Token.bad ∉ itemTokens vs
  | [] => by simp [itemTokens]
  | v :: vs => by simp [itemTokens, bad_not_mem_tokens v, bad_not_mem_itemTokens vs]

theorem bad_not_mem_fieldTokens : ∀ fields : List (Text × Value), Token.bad ∉ fieldTokens fields
  | [] => by simp [fieldTokens]
  | (_, v) :: fields => by
    simp [fieldTokens, bad_not_mem_tokens v, bad_not_mem_fieldTokens fields]

end

theorem tokens_write_append (htokens : tokens .between s = l) (hbad : Token.bad ∉ l)
    (h : Delimited t) : tokens .between (s ++ t) = l ++ tokens .between t := by
  rw [tokens_append (by simp) (htokens ▸ hbad) h, htokens]

theorem tokens_field (layout : Layout) (hname : Plain name) (htokens : tokens .between s = l)
    (hbad : Token.bad ∉ l) (h : Delimited t) :
    tokens .between (quote name ++ ':'.toNat :: (layout.colon ++ (s ++ t))) =
      .string (joined name) :: .colon :: (l ++ tokens .between t) := by
  have hcolon : ∀ rest, tokens .between (':'.toNat :: rest) = .colon :: tokens .between rest :=
    fun _ => rfl
  have hdelimited : ∀ rest, Delimited (':'.toNat :: rest) :=
    fun rest => delimited_cons (c := ':'.toNat) (by decide) _
  rw [tokens_write_append (tokens_quote hname) (by simp) (hdelimited _), hcolon,
    tokens_blank layout.blank_colon, tokens_write_append htokens hbad h]
  rfl

theorem delimited_writeItems (layout : Layout) (level : ℕ) (vs : List Value) :
    Delimited (writeItems layout level vs) := by
  cases vs with
  | nil => exact delimited_append (layout.blank_last level) (delimited_cons (by decide) [])
  | cons v vs => exact delimited_cons (by decide) _

theorem delimited_writeFields (layout : Layout) (level : ℕ) (fields : List (Text × Value)) :
    Delimited (writeFields layout level fields) := by
  cases fields with
  | nil => exact delimited_append (layout.blank_last level) (delimited_cons (by decide) [])
  | cons field fields => exact delimited_cons (by decide) _

theorem tokens_open (bracket : ℕ) (h : next .between bracket = ([token], .between)) (t : Text) :
    tokens .between (bracket :: t) = token :: tokens .between t := by
  rw [tokens, h]
  rfl

mutual

theorem tokens_write (layout : Layout) (level : ℕ) :
    ∀ v : Value, Fits room v → tokens .between (write layout level v) = v.tokens
  | .null, _ => rfl
  | .bool true, _ => rfl
  | .bool false, _ => rfl
  | .int i, _ => tokens_writeInt i
  | .float _, h => by rw [Fits] at h; exact h
  | .string _, h => by rw [Fits] at h; exact tokens_quote h
  | .array [], _ => rfl
  | .array (v :: vs), h => by
    rw [Fits, FitItems] at h
    simp only [write, List.cons_append, List.append_assoc]
    rw [tokens_open _ rfl, tokens_blank (layout.blank_first level),
      tokens_write_append (tokens_write layout _ v h.2.1) (bad_not_mem_tokens v)
        (delimited_writeItems layout level vs),
      tokens_writeItems layout level vs h.2.2, Value.tokens]
  | .object [], _ => rfl
  | .object ((name, v) :: fields), h => by
    rw [Fits, FitFields] at h
    simp only [write, List.cons_append, List.append_assoc]
    rw [tokens_open _ rfl, tokens_blank (layout.blank_first level),
      tokens_field layout h.2.1 (tokens_write layout _ v h.2.2.1) (bad_not_mem_tokens v)
        (delimited_writeFields layout level fields),
      tokens_writeFields layout level fields h.2.2.2, Value.tokens]

theorem tokens_writeItems (layout : Layout) (level : ℕ) :
    ∀ vs : List Value, FitItems room vs →
      tokens .between (writeItems layout level vs) = itemTokens vs
  | [], _ => by
    rw [writeItems, tokens_blank (layout.blank_last level)]
    rfl
  | v :: vs, h => by
    rw [FitItems] at h
    simp only [writeItems, List.cons_append, List.append_assoc]
    rw [tokens_open _ rfl, tokens_blank (layout.blank_next level),
      tokens_write_append (tokens_write layout _ v h.1) (bad_not_mem_tokens v)
        (delimited_writeItems layout level vs),
      tokens_writeItems layout level vs h.2, itemTokens]

theorem tokens_writeFields (layout : Layout) (level : ℕ) :
    ∀ fields : List (Text × Value), FitFields room fields →
      tokens .between (writeFields layout level fields) = fieldTokens fields
  | [], _ => by
    rw [writeFields, tokens_blank (layout.blank_last level)]
    rfl
  | (name, v) :: fields, h => by
    rw [FitFields] at h
    simp only [writeFields, List.cons_append, List.append_assoc]
    rw [tokens_open _ rfl, tokens_blank (layout.blank_next level),
      tokens_field layout h.1 (tokens_write layout _ v h.2.1) (bad_not_mem_tokens v)
        (delimited_writeFields layout level fields),
      tokens_writeFields layout level fields h.2.2, fieldTokens]

end

-- ---------------------------------------------------------------------------
-- Reading back
-- ---------------------------------------------------------------------------

theorem foldlM_parse_cons {limit : ℕ} {p q : Parsing} {token : Token}
    (h : parse limit p token = .ok q) (l : List Token) :
    (token :: l).foldlM (parse limit) p = l.foldlM (parse limit) q := by
  rw [List.foldlM_cons, h]
  rfl

theorem parse_firstItem (limit : ℕ) (frames : List Frame) (v : Value) (l : List Token) :
    (v.tokens ++ l).foldlM (parse limit) (.firstItem frames) =
      (v.tokens ++ l).foldlM (parse limit) (.value (.array [] :: frames)) := by
  cases v with
  | array items => cases items <;> rfl
  | object fields =>
    cases fields with
    | nil => rfl
    | cons field fields => rfl
  | _ => rfl

theorem parse_openArray {limit : ℕ} {frames : List Frame} (h : frames.length < limit) :
    parse limit (.value frames) .openArray = .ok (.firstItem frames) := by
  simp only [parse, value, if_neg h.not_ge]

theorem parse_openObject {limit : ℕ} {frames : List Frame} (h : frames.length < limit) :
    parse limit (.value frames) .openObject = .ok (.firstName frames) := by
  simp only [parse, value, if_neg h.not_ge]

mutual

theorem parse_tokens (limit : ℕ) :
    ∀ (v : Value) (frames : List Frame) (l : List Token), Fits room v →
      frames.length + room ≤ limit →
      (v.tokens ++ l).foldlM (parse limit) (.value frames) =
        l.foldlM (parse limit) (deliver v.joined frames)
  | .null, _, _, _, _ => rfl
  | .bool _, _, _, _, _ => rfl
  | .int i, frames, l, h, _ => by
    rw [Fits] at h
    refine foldlM_parse_cons ?_ l
    have hlength : ¬ Numerals.maxDigits < (writeNat i.natAbs).length := by simpa [short] using h
    rw [parse, value, if_neg hlength, int_writeNat, Value.joined]
    all_goals simp
  | .float _, _, _, _, _ => rfl
  | .string _, _, _, _, _ => rfl
  | .array [], frames, l, h, hroom => by
    rw [Fits] at h
    rw [Value.tokens, List.cons_append, foldlM_parse_cons (parse_openArray (by omega))]
    rfl
  | .array (v :: vs), frames, l, h, hroom => by
    rw [Fits, FitItems] at h
    rw [Value.tokens, List.cons_append, foldlM_parse_cons (parse_openArray (by omega)),
      List.append_assoc, parse_firstItem,
      parse_tokens limit v (.array [] :: frames) _ h.2.1 (by simp; omega)]
    exact parse_itemTokens limit vs [v.joined] frames l h.2.2 (by omega)
  | .object [], frames, l, h, hroom => by
    rw [Fits] at h
    rw [Value.tokens, List.cons_append, foldlM_parse_cons (parse_openObject (by omega))]
    rfl
  | .object ((name, v) :: fields), frames, l, h, hroom => by
    rw [Fits, FitFields] at h
    have hname : parse limit (.firstName frames) (.string (joined name)) =
        .ok (.colon [] (joined name) frames) := rfl
    have hcolon : parse limit (.colon [] (joined name) frames) .colon =
        .ok (.value (.object [] (joined name) :: frames)) := rfl
    rw [Value.tokens, List.cons_append, foldlM_parse_cons (parse_openObject (by omega)),
      List.cons_append, foldlM_parse_cons hname, List.cons_append, foldlM_parse_cons hcolon,
      List.append_assoc, parse_tokens limit v _ _ h.2.2.1 (by simp; omega)]
    exact parse_fieldTokens limit fields [(joined name, v.joined)] frames l h.2.2.2 (by omega)

theorem parse_itemTokens (limit : ℕ) :
    ∀ (vs items : List Value) (frames : List Frame) (l : List Token), FitItems room vs →
      frames.length + 1 + room ≤ limit →
      (itemTokens vs ++ l).foldlM (parse limit) (.afterItem items frames) =
        l.foldlM (parse limit) (deliver (.array (items.reverse ++ joinedItems vs)) frames)
  | [], items, _, _, _, _ => by
    simp only [itemTokens, joinedItems, List.append_nil]
    rfl
  | v :: vs, items, frames, l, h, hroom => by
    rw [FitItems] at h
    have hcomma : parse limit (.afterItem items frames) .comma =
        .ok (.value (.array items :: frames)) := rfl
    rw [itemTokens, List.cons_append, foldlM_parse_cons hcomma, List.append_assoc,
      parse_tokens limit v _ _ h.1 (by simp; omega)]
    refine (parse_itemTokens limit vs (v.joined :: items) frames l h.2 hroom).trans ?_
    simp [joinedItems]

theorem parse_fieldTokens (limit : ℕ) :
    ∀ (fields read : List (Text × Value)) (frames : List Frame) (l : List Token),
      FitFields room fields → frames.length + 1 + room ≤ limit →
      (fieldTokens fields ++ l).foldlM (parse limit) (.afterField read frames) =
        l.foldlM (parse limit) (deliver (.object (read.reverse ++ joinedFields fields)) frames)
  | [], read, _, _, _, _ => by
    simp only [fieldTokens, joinedFields, List.append_nil]
    rfl
  | (name, v) :: fields, read, frames, l, h, hroom => by
    rw [FitFields] at h
    have hcomma : parse limit (.afterField read frames) .comma = .ok (.name read frames) := rfl
    have hname : parse limit (.name read frames) (.string (joined name)) =
        .ok (.colon read (joined name) frames) := rfl
    have hcolon : parse limit (.colon read (joined name) frames) .colon =
        .ok (.value (.object read (joined name) :: frames)) := rfl
    rw [fieldTokens, List.cons_append, foldlM_parse_cons hcomma, List.cons_append,
      foldlM_parse_cons hname, List.cons_append, foldlM_parse_cons hcolon, List.append_assoc,
      parse_tokens limit v _ _ h.2.1 (by simp; omega)]
    refine (parse_fieldTokens limit fields ((joined name, v.joined) :: read) frames l h.2.2
      hroom).trans ?_
    simp [joinedFields]

end

/-- What was written is read back, with its surrogate pairs as one character each. -/
theorem loads_write (layout : Layout) (level : ℕ) (h : Fits room v) (hroom : room ≤ limit) :
    loads limit (write layout level v) = .ok v.joined := by
  have hparse := parse_tokens limit v [] [] h (by simpa using hroom)
  rw [List.append_nil] at hparse
  rw [loads, tokens_write layout level v h, hparse]
  rfl

theorem loads_write_append (layout : Layout) (level : ℕ) (h : Fits room v) (hroom : room ≤ limit)
    (hw : ∀ c ∈ w, isBlank c = true) : loads limit (write layout level v ++ w) = .ok v.joined := by
  have hblank := tokens_blank hw []
  rw [List.append_nil] at hblank
  have hdelimited : Delimited w := by
    have happend := delimited_append hw (t := []) (by simp [Delimited])
    rwa [List.append_nil] at happend
  have htokens := tokens_write_append (tokens_write layout level v h) (bad_not_mem_tokens v)
    hdelimited
  rw [hblank, tokens, finish, List.append_nil] at htokens
  rw [loads, htokens, ← tokens_write layout level v h, ← loads, loads_write layout level h hroom]

theorem loads_dumps {layout : Layout} {v : Value} (h : dumps layout v = .ok t)
    (hfits : v.ints.all short = true → Fits room v) (hroom : room ≤ limit) :
    loads limit t = .ok v.joined := by
  unfold dumps at h
  split at h
  · rename_i hshort
    rw [← Except.ok.inj h]
    exact loads_write layout 0 (hfits hshort) hroom
  · cases h

-- ---------------------------------------------------------------------------
-- Plain strings
-- ---------------------------------------------------------------------------

theorem mem_text (h : c ∈ text s) : c < 0x110000 ∧ (c < 0xD800 ∨ 0xDFFF < c) := by
  obtain ⟨char, -, rfl⟩ := List.mem_map.mp h
  have hvalid : char.toNat.isValidChar := char.valid
  simp only [Nat.isValidChar] at hvalid
  omega

theorem plain_text (s : String) : Plain (text s) := fun _ hc => (mem_text hc).1

theorem joined_of_no_high (h : ∀ c ∈ t, isHigh c = false) : joined t = t := by
  induction t with
  | nil => rfl
  | cons c t ih =>
    rw [List.forall_mem_cons] at h
    rw [joined_cons_of_not_high h.1, ih h.2]

@[simp] theorem joined_text (s : String) : joined (text s) = text s :=
  joined_of_no_high fun _ hc => (plain_of (mem_text hc).2).1

@[simp] theorem joined_named (fields : List (String × Value)) :
    (named fields).joined = named (fields.map fun f => (f.1, f.2.joined)) := by
  rw [named, named, Value.joined]
  congr 1
  induction fields with
  | nil => rfl
  | cons f fields ih => simp [joinedFields, ih]

@[simp] theorem ints_named (fields : List (String × Value)) :
    (named fields).ints = fields.flatMap fun f => f.2.ints := by
  rw [named, Value.ints]
  induction fields with
  | nil => rfl
  | cons f fields ih => simp [fieldInts, ih]

@[simp] theorem fits_named (room : ℕ) (fields : List (String × Value)) :
    Fits room (named fields) ↔ 0 < room ∧ ∀ f ∈ fields, Fits (room - 1) f.2 := by
  rw [named, Fits]
  refine and_congr_right fun _ => ?_
  induction fields with
  | nil => simp [FitFields]
  | cons f fields ih => simp [FitFields, ih, plain_text]

/-- The last field of a name counts, among plain names as among texts. -/
theorem get?_named (fields : List (String × Value)) (name : String) :
    get? (fields.map fun f => (text f.1, f.2)) (text name) = fields.reverse.lookup name := by
  induction fields using List.reverseRecOn with
  | nil => rfl
  | append_singleton fields field ih =>
    rw [List.map_append, List.map_singleton, get?_concat, ih, List.reverse_append,
      List.reverse_singleton, List.singleton_append, List.lookup_cons]
    by_cases h : field.1 = name
    · simp [h]
    · rw [if_neg (fun ht => h (text_injective ht)), beq_false_of_ne (Ne.symm h)]

end JsonText
