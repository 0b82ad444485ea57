import Mathlib.Data.List.Chain
import Mathlib.Data.List.Sort
import Wifucked.Lib.JsonWriter
import Wifucked.Lib.Keyed

/-!
# Values that were loaded

What `JsonText.loads` gives of a decoded text can be written and read again, and
is the same then. A decoded text has no surrogates but in escapes, the escapes of
a pair are one character already, a number is no longer than it may be, and a
literal is a float by itself. Python keeps the last of two fields of a name, and
a float for its literal, which it writes as `repr` gives it.
-/

namespace JsonText

/-- A character of a decoded text. -/
def Scalar (c : ℕ) : Prop := c < 0x110000 ∧ (c < 0xD800 ∨ 0xDFFF < c)

-- ---------------------------------------------------------------------------
-- Tokens
-- ---------------------------------------------------------------------------

def GoodText (t : Text) : Prop := Plain t ∧ joined t = t

def GoodScalar : Value → Prop
  | .null => True
  | .bool _ => True
  | .float literal => Literal literal
  | _ => False

def GoodToken : Token → Prop
  | .string s => GoodText s
  | .digits _ digits => ∀ c ∈ digits, isDigit c = true
  | .scalar v => GoodScalar v
  | _ => True

/-- What a string has so far, in reverse; whether a high surrogate was last. -/
structure GoodString (s : Text) (high : Bool) : Prop where
  plain : Plain s
  apart : s.IsChain fun low high => (isHigh high && isLow low) = false
  last : high = s.head?.any isHigh

/-- The characters bring the reader there, and no token came of them yet. -/
def Reached (mode : Mode) (l : Text) : Prop :=
  ∀ rest, tokens .between (l ++ rest) = tokens mode rest

def GoodMode : Mode → Prop
  | .word _ token => GoodToken token
  | .string s high => GoodString s high
  | .escape s high => GoodString s high
  | .unicode s high left value =>
    GoodString s high ∧ 0 < left ∧ left ≤ 4 ∧ value < 16 ^ (4 - left)
  | .minus => Reached .minus ['-'.toNat]
  | .zero negative => Reached (.zero negative) (literalOf negative ['0'.toNat]).reverse
  | .whole negative digits =>
    Reached (.whole negative digits) (literalOf negative digits).reverse ∧
      ∀ c ∈ digits, isDigit c = true
  | .point number literal => GoodToken number ∧ Reached (.point number literal) literal.reverse
  | .exponent number literal =>
    GoodToken number ∧ Reached (.exponent number literal) literal.reverse
  | .sign number literal => GoodToken number ∧ Reached (.sign number literal) literal.reverse
  | .fraction literal => Reached (.fraction literal) literal.reverse
  | .power literal => Reached (.power literal) literal.reverse
  | _ => True

theorem Reached.next (h : Reached mode l) (hnext : next mode c = ([], mode')) :
    Reached mode' (l ++ [c]) := by
  intro rest
  rw [List.append_assoc, List.singleton_append, h, tokens, hnext]
  rfl

theorem Reached.cons (h : Reached mode l.reverse) (hnext : JsonText.next mode c = ([], mode')) :
    Reached mode' (c :: l).reverse := by
  rw [List.reverse_cons]
  exact h.next hnext

theorem joined_of_apart (h : t.IsChain fun high low => (isHigh high && isLow low) = false) :
    joined t = t := by
  induction t with
  | nil => rfl
  | cons c t ih =>
    cases t with
    | nil => rfl
    | cons d rest =>
      rw [List.isChain_cons_cons] at h
      simp [joined, h.1, ih h.2]

theorem GoodString.goodText (h : GoodString s high) : GoodText s.reverse := by
  refine ⟨fun c hc => h.plain c (List.mem_reverse.mp hc), joined_of_apart ?_⟩
  rw [List.isChain_reverse]
  exact h.apart

theorem le_pair (c d : ℕ) : 0x10000 ≤ pair c d := by
  unfold pair
  omega

theorem pair_lt (h : isHigh c = true) (hd : isLow d = true) : pair c d < 0x110000 := by
  rw [isHigh_iff] at h
  rw [isLow_iff] at hd
  unfold pair
  omega

/-- The second half of a pair is no half itself. -/
theorem pair_plain (h : isHigh c = true) (hd : isLow d = true) :
    pair c d < 0x110000 ∧ isHigh (pair c d) = false ∧ isLow (pair c d) = false :=
  ⟨pair_lt h hd, plain_of (.inr (lt_of_lt_of_le (by norm_num) (le_pair c d)))⟩

theorem goodString_cons (h : GoodString s high) (hc : c < 0x110000)
    (hapart : (high && isLow c) = false) : GoodString (c :: s) (isHigh c) where
  plain := List.forall_mem_cons.mpr ⟨hc, h.plain⟩
  apart := by
    have hlast := h.last
    cases s with
    | nil => simp
    | cons first rest =>
      subst hlast
      exact List.isChain_cons_cons.mpr ⟨hapart, h.apart⟩
  last := rfl

theorem goodString_replace (h : GoodString (first :: rest) high) (hd : d < 0x110000)
    (hhigh : isHigh d = false) (hlow : isLow d = false) : GoodString (d :: rest) false where
  plain := List.forall_mem_cons.mpr ⟨hd, (List.forall_mem_cons.mp h.plain).2⟩
  apart := by
    cases rest with
    | nil => simp
    | cons second rest =>
      exact List.isChain_cons_cons.mpr ⟨by simp [hlow], (List.isChain_cons_cons.mp h.apart).2⟩
  last := hhigh.symm

theorem GoodString.push (h : GoodString s high) (hc : c < 0x110000) :
    GoodString (push s high c).1 (push s high c).2 := by
  have hlast := h.last
  cases s with
  | nil =>
    subst hlast
    exact goodString_cons h hc rfl
  | cons first rest =>
    cases hpair : high && isLow c with
    | true =>
      have hpush : JsonText.push (first :: rest) high c = (pair first c :: rest, false) := by
        simp [JsonText.push, hpair]
      rw [Bool.and_eq_true] at hpair
      have hhigh : isHigh first = true := hlast.symm.trans hpair.1
      have hplain := pair_plain hhigh hpair.2
      rw [hpush]
      exact goodString_replace h hplain.1 hplain.2.1 hplain.2.2
    | false =>
      have hpush : JsonText.push (first :: rest) high c = (c :: first :: rest, isHigh c) := by
        simp [JsonText.push, hpair]
      rw [hpush]
      exact goodString_cons h hc hpair

theorem reached_between : Reached .between [] := fun _ => rfl

theorem reached_start (h : start c = ([], mode)) : Reached mode [c] :=
  reached_between.next h

theorem goodString_nil : GoodString [] false := ⟨by simp [Plain], by simp, rfl⟩

theorem start_of_digit (h : isDigit c = true) (hzero : c ≠ '0'.toNat) :
    start c = ([], .whole false [c]) := by
  simp only [isDigit, Bool.and_eq_true, decide_eq_true_eq] at h
  obtain ⟨hlo, hhi⟩ := h
  interval_cases c
  · exact absurd rfl hzero
  all_goals rfl

theorem goodMode_start (c : ℕ) :
    (∀ token ∈ (start c).1, GoodToken token) ∧ GoodMode (start c).2 := by
  by_cases hdigit : isDigit c = true ∧ c ≠ '0'.toNat
  · have hstart := start_of_digit hdigit.1 hdigit.2
    rw [hstart]
    exact ⟨by simp, reached_start hstart, by simpa using hdigit.1⟩
  · unfold start
    split
    case h_15 => exact ⟨by simp, rfl⟩
    case h_16 => exact ⟨by simp, rfl⟩
    case h_17 => exact ⟨by simp, fun _ => rfl⟩
    case h_18 => exact ⟨by simp, fun _ => rfl⟩
    case h_19 _ _ _ _ _ _ _ _ _ _ _ _ _ _ _ _ _ _ hzero =>
      have hnot : isDigit c = false := by
        by_contra hd
        refine hdigit ⟨by simpa using hd, ?_⟩
        rintro rfl
        exact hzero rfl
      simp [hnot, GoodMode, GoodToken]
    all_goals simp [GoodMode, GoodToken, GoodScalar, goodString_nil]

theorem literal_of_reached (h : Reached mode literal.reverse)
    (hfinish : finish mode = [float literal]) : GoodToken (float literal) :=
  (List.append_nil literal.reverse ▸ h []).trans hfinish

theorem goodMode_addUnit (h : GoodString s high) (hc : n < 0x10000) :
    GoodMode (addUnit s high n) := by
  rw [addUnit_eq]
  exact h.push (by omega)

theorem goodString_scalar (hmode : GoodString s high) (h : Scalar c) :
    GoodString (c :: s) false := by
  obtain ⟨hhigh, hlow⟩ := plain_of h.2
  have hcons := goodString_cons hmode h.1 (by simp [hlow])
  rwa [hhigh] at hcons

theorem goodMode_escaped (hmode : GoodString s high) (h : Scalar c) :
    (∀ token ∈ (escaped s high c).1, GoodToken token) ∧ GoodMode (escaped s high c).2 := by
  have hcontrol : ∀ d < 32, GoodString (d :: s) false :=
    fun d hd => goodString_scalar hmode ⟨by omega, by omega⟩
  unfold escaped
  split
  case h_1 => exact ⟨by simp, goodString_scalar hmode h⟩
  case h_2 => exact ⟨by simp, goodString_scalar hmode h⟩
  case h_3 => exact ⟨by simp, goodString_scalar hmode h⟩
  case h_9 => exact ⟨by simp, hmode, by omega, by omega, by omega⟩
  case h_10 => simp [GoodMode, GoodToken]
  all_goals exact ⟨by simp, hcontrol _ (by omega)⟩

theorem goodMode_endNumber {token : Token} (htoken : GoodToken token) (c : ℕ) :
    (∀ t ∈ (endNumber token c).1, GoodToken t) ∧ GoodMode (endNumber token c).2 := by
  obtain ⟨htokens, hmode⟩ := goodMode_start c
  exact ⟨List.forall_mem_cons.mpr ⟨htoken, htokens⟩, hmode⟩

theorem goodToken_number (h : ∀ c ∈ digits, isDigit c = true) (negative : Bool) :
    GoodToken (number negative digits) :=
  fun c hc => h c (List.mem_reverse.mp hc)

theorem goodMode_afterWhole (hdigits : ∀ c ∈ digits, isDigit c = true)
    (hreached : Reached mode (literalOf negative digits).reverse)
    (hnext : next mode c = afterWhole negative digits c) :
    (∀ token ∈ (afterWhole negative digits c).1, GoodToken token) ∧
      GoodMode (afterWhole negative digits c).2 := by
  have hnumber := goodToken_number hdigits negative
  have hstep : ∀ mode', afterWhole negative digits c = ([], mode') →
      Reached mode' (c :: literalOf negative digits).reverse :=
    fun mode' hmode' => hreached.cons (hnext.trans hmode')
  unfold afterWhole at hstep ⊢
  split_ifs at hstep ⊢
  · exact ⟨by simp, hnumber, hstep _ rfl⟩
  · exact ⟨by simp, hnumber, hstep _ rfl⟩
  · exact goodMode_endNumber hnumber c

theorem digit_lt (h : Numerals.digit base c = some d) : d < base := by
  simpa using (Option.filter_eq_some_iff.mp h).2

theorem goodMode_broken {token : Token} (htoken : GoodToken token) :
    (∀ t ∈ ([token, .bad], Mode.stuck).1, GoodToken t) ∧ GoodMode ([token, .bad], Mode.stuck).2 :=
  ⟨List.forall_mem_cons.mpr ⟨htoken, List.forall_mem_singleton.mpr trivial⟩, trivial⟩

theorem goodMode_next (hmode : GoodMode mode) (h : Scalar c) :
    (∀ token ∈ (next mode c).1, GoodToken token) ∧ GoodMode (next mode c).2 := by
  cases mode with
  | between => exact goodMode_start c
  | stuck => simp [next, GoodMode]
  | escape s high => exact goodMode_escaped hmode h
  | word rest token =>
    cases rest with
    | nil => exact goodMode_endNumber hmode c
    | cons w rest =>
      simp only [next]
      split_ifs
      · exact ⟨by simp, hmode⟩
      · simp [GoodMode, GoodToken]
  | string s high =>
    simp only [next]
    split_ifs
    · exact ⟨List.forall_mem_singleton.mpr (GoodString.goodText hmode), trivial⟩
    · exact ⟨by simp, hmode⟩
    · simp [GoodMode, GoodToken]
    · exact ⟨by simp, goodString_scalar hmode h⟩
  | unicode s high left value =>
    obtain ⟨hstring, hpos, hle, hvalue⟩ := hmode
    cases hd : Numerals.digit 16 (Char.ofNat c) with
    | none => simp [next, hd, GoodMode, GoodToken]
    | some d =>
      have hlt := digit_lt hd
      simp only [next, hd]
      split_ifs with hleft
      · refine ⟨by simp, goodMode_addUnit hstring ?_⟩
        obtain rfl : left = 1 := by omega
        omega
      · refine ⟨by simp, hstring, by omega, by omega, ?_⟩
        have hpow : 16 ^ (4 - (left - 1)) = 16 ^ (4 - left) * 16 := by
          rw [← pow_succ]
          congr 1
          omega
        omega
  | minus =>
    simp only [next]
    split_ifs
    · exact ⟨by simp, rfl⟩
    · rename_i hzero
      subst hzero
      exact ⟨by simp, hmode.next rfl⟩
    · rename_i hinf hzero hdigit
      exact ⟨by simp, hmode.next (by rw [next, if_neg hinf, if_neg hzero, if_pos hdigit]),
        by simpa using hdigit⟩
    · simp [GoodMode, GoodToken]
  | zero negative => exact goodMode_afterWhole (by decide) hmode rfl
  | whole negative digits =>
    obtain ⟨hreached, hdigits⟩ := hmode
    simp only [next]
    split_ifs with hc
    · exact ⟨by simp, hreached.cons (by simp [next, hc]), List.forall_mem_cons.mpr ⟨hc, hdigits⟩⟩
    · exact goodMode_afterWhole hdigits hreached (by simp [next, hc])
  | point number literal =>
    obtain ⟨hnumber, hreached⟩ := hmode
    simp only [next]
    split_ifs with hc
    · exact ⟨by simp, hreached.cons (by simp [next, hc])⟩
    · exact goodMode_broken hnumber
  | fraction literal =>
    have hfloat : GoodToken (float literal) := literal_of_reached hmode rfl
    simp only [next]
    split_ifs with hc he
    · exact ⟨by simp, hmode.cons (by simp [next, hc])⟩
    · exact ⟨by simp, hfloat, hmode.cons (by rw [next, if_neg hc, if_pos he])⟩
    · exact goodMode_endNumber hfloat c
  | exponent number literal =>
    obtain ⟨hnumber, hreached⟩ := hmode
    simp only [next]
    split_ifs with hsign hc
    · exact ⟨by simp, hnumber, hreached.cons (by rw [next, if_pos hsign])⟩
    · exact ⟨by simp, hreached.cons (by rw [next, if_neg hsign, if_pos hc])⟩
    · exact goodMode_broken hnumber
  | sign number literal =>
    obtain ⟨hnumber, hreached⟩ := hmode
    simp only [next]
    split_ifs with hc
    · exact ⟨by simp, hreached.cons (by simp [next, hc])⟩
    · exact goodMode_broken hnumber
  | power literal =>
    have hfloat : GoodToken (float literal) := literal_of_reached hmode rfl
    simp only [next]
    split_ifs with hc
    · exact ⟨by simp, hmode.cons (by simp [next, hc])⟩
    · exact goodMode_endNumber hfloat c

theorem goodToken_finish (hmode : GoodMode mode) : ∀ token ∈ finish mode, GoodToken token := by
  cases mode with
  | word rest token =>
    cases rest with
    | nil => exact List.forall_mem_singleton.mpr hmode
    | cons w rest => simp [finish, GoodToken]
  | zero negative => exact List.forall_mem_singleton.mpr (goodToken_number (by decide) negative)
  | whole negative digits =>
    exact List.forall_mem_singleton.mpr (goodToken_number hmode.2 negative)
  | point number literal => exact (goodMode_broken hmode.1).1
  | exponent number literal => exact (goodMode_broken hmode.1).1
  | sign number literal => exact (goodMode_broken hmode.1).1
  | fraction literal => exact List.forall_mem_singleton.mpr (literal_of_reached hmode rfl)
  | power literal => exact List.forall_mem_singleton.mpr (literal_of_reached hmode rfl)
  | _ => simp [finish, GoodToken]

theorem goodToken_tokens (hmode : GoodMode mode) (h : ∀ c ∈ t, Scalar c) :
    ∀ token ∈ tokens mode t, GoodToken token := by
  induction t generalizing mode with
  | nil => exact goodToken_finish hmode
  | cons c t ih =>
    rw [List.forall_mem_cons] at h
    obtain ⟨htokens, hnext⟩ := goodMode_next hmode h.1
    rw [tokens, List.forall_mem_append]
    exact ⟨htokens, ih hnext h.2⟩

-- ---------------------------------------------------------------------------
-- Values
-- ---------------------------------------------------------------------------

/-- A value that is written and read again unchanged, where there is so much room. -/
def Good (room : ℕ) (v : Value) : Prop := Fits room v ∧ v.joined = v

def GoodFields (room : ℕ) (fields : List (Text × Value)) : Prop :=
  ∀ f ∈ fields, GoodText f.1 ∧ Good room f.2

def GoodFrames (limit : ℕ) : List Frame → Prop
  | [] => True
  | .array items :: frames =>
    (frames.length < limit ∧ ∀ v ∈ items, Good (limit - (frames.length + 1)) v) ∧
      GoodFrames limit frames
  | .object fields name :: frames =>
    (frames.length < limit ∧ GoodFields (limit - (frames.length + 1)) fields ∧ GoodText name) ∧
      GoodFrames limit frames

def GoodParsing (limit : ℕ) : Parsing → Prop
  | .value frames => GoodFrames limit frames
  | .firstItem frames => frames.length < limit ∧ GoodFrames limit frames
  | .afterItem items frames => GoodFrames limit (.array items :: frames)
  | .firstName frames => frames.length < limit ∧ GoodFrames limit frames
  | .name fields frames => GoodFrames limit (.object fields [] :: frames)
  | .colon fields name frames => GoodFrames limit (.object fields name :: frames)
  | .afterField fields frames => GoodFrames limit (.object fields [] :: frames)
  | .done v => Good limit v

theorem goodText_nil : GoodText [] := ⟨by simp [Plain], rfl⟩

theorem scalar_text (s : String) : ∀ c ∈ text s, Scalar c := fun _ hc => mem_text hc

theorem goodText_of_scalar (h : ∀ c ∈ t, Scalar c) : GoodText t := by
  refine ⟨fun c hc => (h c hc).1, joined_of_apart ?_⟩
  induction t with
  | nil => exact .nil
  | cons c t ih =>
    rw [List.forall_mem_cons] at h
    cases t with
    | nil => exact .singleton c
    | cons d t => exact .cons_cons (by simp [(plain_of h.1.2).1]) (ih h.2)

theorem good_items : (∀ v ∈ items, Good room v) ↔
    FitItems room items ∧ joinedItems items = items := by
  induction items with
  | nil => simp [FitItems, joinedItems]
  | cons v items ih =>
    rw [List.forall_mem_cons, ih, FitItems, joinedItems, List.cons.injEq]
    exact and_and_and_comm

theorem good_fields : GoodFields room fields ↔
    FitFields room fields ∧ joinedFields fields = fields := by
  induction fields with
  | nil => simp [GoodFields, FitFields, joinedFields]
  | cons f fields ih =>
    obtain ⟨name, v⟩ := f
    rw [GoodFields, List.forall_mem_cons, ← GoodFields, ih, FitFields, joinedFields,
      List.cons.injEq, Prod.mk.injEq]
    simp only [GoodText, Good]
    tauto

theorem good_array (h : ∀ v ∈ items, Good (room - 1) v) (hroom : 0 < room) :
    Good room (.array items) := by
  obtain ⟨hfits, hjoined⟩ := good_items.mp h
  exact ⟨⟨hroom, hfits⟩, by rw [Value.joined, hjoined]⟩

theorem of_good_array (h : Good room (.array items)) :
    0 < room ∧ ∀ v ∈ items, Good (room - 1) v := by
  obtain ⟨⟨hroom, hfits⟩, hjoined⟩ := h
  rw [Value.joined, Value.array.injEq] at hjoined
  exact ⟨hroom, good_items.mpr ⟨hfits, hjoined⟩⟩

theorem good_object (h : GoodFields (room - 1) fields) (hroom : 0 < room) :
    Good room (.object fields) := by
  obtain ⟨hfits, hjoined⟩ := good_fields.mp h
  exact ⟨⟨hroom, hfits⟩, by rw [Value.joined, hjoined]⟩

theorem of_good_object (h : Good room (.object fields)) :
    0 < room ∧ GoodFields (room - 1) fields := by
  obtain ⟨⟨hroom, hfits⟩, hjoined⟩ := h
  rw [Value.joined, Value.object.injEq] at hjoined
  exact ⟨hroom, good_fields.mpr ⟨hfits, hjoined⟩⟩

theorem good_string (h : GoodText s) (room : ℕ) : Good room (.string s) :=
  ⟨h.1, by rw [Value.joined, h.2]⟩

theorem good_scalar (h : GoodScalar v) (room : ℕ) : Good room v := by
  cases v with
  | null => exact ⟨trivial, rfl⟩
  | bool b => exact ⟨trivial, rfl⟩
  | float literal => exact ⟨h, rfl⟩
  | _ => cases h

theorem decimal_lt {digits : Text} (h : ∀ c ∈ digits, isDigit c = true) (n : ℕ) :
    digits.foldl (fun n c => n * 10 + (c - 48)) n < (n + 1) * 10 ^ digits.length := by
  induction digits generalizing n with
  | nil => simp
  | cons c digits ih =>
    rw [List.forall_mem_cons] at h
    have hc : c - 48 < 10 := by
      have hdigit := h.1
      simp only [isDigit, Bool.and_eq_true, decide_eq_true_eq] at hdigit
      omega
    refine (ih h.2 _).trans_le ?_
    rw [List.length_cons, pow_succ, mul_comm (10 ^ _) 10, ← mul_assoc]
    refine Nat.mul_le_mul_right _ ?_
    simp only
    omega

theorem short_int (h : ∀ c ∈ digits, isDigit c = true)
    (hlength : digits.length ≤ Numerals.maxDigits) (negative : Bool) :
    short (int negative digits) = true := by
  have hnat : (int negative digits).natAbs = decimal digits := by
    cases negative <;> simp [int]
  have hlt : decimal digits < 10 ^ Numerals.maxDigits := by
    refine (decimal_lt h 0).trans_le ?_
    rw [Nat.zero_add, one_mul]
    exact Nat.pow_le_pow_right (by omega) hlength
  have hwritten : (Nat.toDigits 10 (decimal digits)).length ≤ Numerals.maxDigits :=
    (Nat.length_toDigits_le_iff (by omega) (by decide)).mpr hlt
  simpa [short, hnat, writeNat] using hwritten

theorem goodParsing_deliver {frames : List Frame} (hv : Good (limit - frames.length) v)
    (h : GoodFrames limit frames) : GoodParsing limit (deliver v frames) := by
  cases frames with
  | nil => exact hv
  | cons frame frames =>
    cases frame with
    | array items =>
      obtain ⟨⟨hroom, hitems⟩, hframes⟩ := h
      exact ⟨⟨hroom, List.forall_mem_cons.mpr ⟨hv, hitems⟩⟩, hframes⟩
    | object fields name =>
      obtain ⟨⟨hroom, hfields, hname⟩, hframes⟩ := h
      exact ⟨⟨hroom, List.forall_mem_cons.mpr ⟨⟨hname, hv⟩, hfields⟩, goodText_nil⟩, hframes⟩

theorem goodParsing_value (htoken : GoodToken token) (h : GoodFrames limit frames)
    (hvalue : value limit frames token = .ok p) : GoodParsing limit p := by
  cases token with
  | scalar v => exact Except.ok.inj hvalue ▸ goodParsing_deliver (good_scalar htoken _) h
  | string s => exact Except.ok.inj hvalue ▸ goodParsing_deliver (good_string htoken _) h
  | digits negative digits =>
    simp only [value] at hvalue
    split at hvalue
    · cases hvalue
    · rename_i hlength
      exact Except.ok.inj hvalue ▸
        goodParsing_deliver ⟨short_int htoken (not_lt.mp hlength) negative, rfl⟩ h
  | openArray =>
    simp only [value] at hvalue
    split at hvalue
    · cases hvalue
    · rename_i hroom
      exact Except.ok.inj hvalue ▸ ⟨not_le.mp hroom, h⟩
  | openObject =>
    simp only [value] at hvalue
    split at hvalue
    · cases hvalue
    · rename_i hroom
      exact Except.ok.inj hvalue ▸ ⟨not_le.mp hroom, h⟩
  | _ => cases hvalue

theorem goodParsing_parse (htoken : GoodToken token) (h : GoodParsing limit p)
    (hparse : parse limit p token = .ok q) : GoodParsing limit q := by
  unfold parse at hparse
  split at hparse
  case h_1 => exact goodParsing_value htoken h hparse
  case h_2 frames =>
    have hempty : Good (limit - frames.length) (.array []) :=
      good_array (by simp) (Nat.sub_pos_of_lt h.1)
    exact Except.ok.inj hparse ▸ goodParsing_deliver hempty h.2
  case h_3 frames _ =>
    have hframes : GoodFrames limit (.array [] :: frames) := ⟨⟨h.1, by simp⟩, h.2⟩
    exact goodParsing_value htoken hframes hparse
  case h_4 => exact Except.ok.inj hparse ▸ h
  case h_5 items frames =>
    have hitems : Good (limit - frames.length) (.array items.reverse) :=
      good_array (fun v hv => h.1.2 v (List.mem_reverse.mp hv)) (Nat.sub_pos_of_lt h.1.1)
    exact Except.ok.inj hparse ▸ goodParsing_deliver hitems h.2
  case h_6 frames =>
    have hempty : Good (limit - frames.length) (.object []) :=
      good_object (by simp [GoodFields]) (Nat.sub_pos_of_lt h.1)
    exact Except.ok.inj hparse ▸ goodParsing_deliver hempty h.2
  case h_7 frames name =>
    exact Except.ok.inj hparse ▸ ⟨⟨h.1, by simp [GoodFields], htoken⟩, h.2⟩
  case h_8 fields frames name =>
    exact Except.ok.inj hparse ▸ ⟨⟨h.1.1, h.1.2.1, htoken⟩, h.2⟩
  case h_9 => exact Except.ok.inj hparse ▸ h
  case h_10 => exact Except.ok.inj hparse ▸ h
  case h_11 fields frames =>
    have hfields : Good (limit - frames.length) (.object fields.reverse) :=
      good_object (fun f hf => h.1.2.1 f (List.mem_reverse.mp hf)) (Nat.sub_pos_of_lt h.1.1)
    exact Except.ok.inj hparse ▸ goodParsing_deliver hfields h.2
  case h_12 => cases hparse

theorem goodParsing_foldlM {l : List Token} (hl : ∀ token ∈ l, GoodToken token)
    (h : GoodParsing limit p) (hfold : l.foldlM (parse limit) p = .ok q) : GoodParsing limit q := by
  induction l generalizing p with
  | nil => exact Except.ok.inj hfold ▸ h
  | cons token l ih =>
    rw [List.foldlM_cons, bind_eq_ok] at hfold
    obtain ⟨r, hr, hfold⟩ := hfold
    rw [List.forall_mem_cons] at hl
    exact ih hl.2 (goodParsing_parse hl.1 h hr) hfold

/-- What was loaded can be written, and is read again as it is. -/
theorem good_of_loads (ht : ∀ c ∈ t, Scalar c) (h : loads limit t = .ok v) : Good limit v := by
  rw [loads, bind_eq_ok] at h
  obtain ⟨p, hp, h⟩ := h
  have htokens : ∀ token ∈ tokens .between t, GoodToken token := goodToken_tokens trivial ht
  have hstart : GoodParsing limit (.value []) := trivial
  have hgood := goodParsing_foldlM htokens hstart hp
  cases p with
  | done w => exact Except.ok.inj h ▸ hgood
  | _ => cases h

mutual

theorem short_of_fits : ∀ v : Value, Fits room v → ∀ i ∈ v.ints, short i = true
  | .int i, h => by
    rw [Value.ints, List.forall_mem_singleton]
    rwa [Fits] at h
  | .array items, h => by
    rw [Fits] at h
    rw [Value.ints]
    exact short_of_fitItems items h.2
  | .object fields, h => by
    rw [Fits] at h
    rw [Value.ints]
    exact short_of_fitFields fields h.2
  | .null, _ => by simp [Value.ints]
  | .bool _, _ => by simp [Value.ints]
  | .float _, _ => by simp [Value.ints]
  | .string _, _ => by simp [Value.ints]

theorem short_of_fitItems :
    ∀ items : List Value, FitItems room items → ∀ i ∈ itemInts items, short i = true
  | [], _ => by simp [itemInts]
  | v :: items, h => by
    rw [FitItems] at h
    rw [itemInts, List.forall_mem_append]
    exact ⟨short_of_fits v h.1, short_of_fitItems items h.2⟩

theorem short_of_fitFields :
    ∀ fields : List (Text × Value), FitFields room fields → ∀ i ∈ fieldInts fields, short i = true
  | [], _ => by simp [fieldInts]
  | (_, v) :: fields, h => by
    rw [FitFields] at h
    rw [fieldInts, List.forall_mem_append]
    exact ⟨short_of_fits v h.2.1, short_of_fitFields fields h.2.2⟩

end

/-- A value that was loaded is dumped, and its text is loaded as the same value. -/
theorem dumps_of_good (h : Good room v) (hroom : room ≤ limit) (layout : Layout) :
    dumps layout v = .ok (write layout 0 v) ∧ loads limit (write layout 0 v) = .ok v := by
  refine ⟨if_pos (List.all_eq_true.mpr (short_of_fits v h.1)), ?_⟩
  rw [loads_write layout 0 h.1 hroom, h.2]

-- ---------------------------------------------------------------------------
-- Names in order
-- ---------------------------------------------------------------------------

/-- `sort_keys`. -/
def sortFields (fields : List (Text × Value)) : List (Text × Value) :=
  fields.insertionSort fun f g => f.1 ≤ g.1

theorem sortFields_perm (fields : List (Text × Value)) : (sortFields fields).Perm fields :=
  List.perm_insertionSort _ _

theorem mem_sortFields {fields : List (Text × Value)} : f ∈ sortFields fields ↔ f ∈ fields :=
  (sortFields_perm fields).mem_iff

theorem nodup_sortFields {fields : List (Text × Value)} :
    ((sortFields fields).map Prod.fst).Nodup ↔ (fields.map Prod.fst).Nodup :=
  ((sortFields_perm fields).map Prod.fst).nodup_iff

theorem get?_eq_some_of_mem {fields : List (Text × Value)} (hn : (fields.map Prod.fst).Nodup)
    (h : (name, v) ∈ fields) : get? fields name = some v := by
  induction fields using List.reverseRecOn with
  | nil => cases h
  | append_singleton fields f ih =>
    rw [List.map_append, List.map_singleton, List.nodup_append] at hn
    rw [get?_concat]
    rcases List.mem_append.mp h with h | h
    · have hne : f.1 ≠ name := fun heq =>
        hn.2.2 name (List.mem_map_of_mem (f := Prod.fst) h) f.1 (List.mem_singleton.mpr rfl)
          heq.symm
      rw [if_neg hne, ih hn.1 h]
    · rw [← List.mem_singleton.mp h, if_pos rfl]

-- ---------------------------------------------------------------------------
-- Dictionaries and floats
-- ---------------------------------------------------------------------------

/-- A dictionary's fields: the last value of a name, at its first place. -/
def lastOfEach (fields : List (Text × Value)) : List (Text × Value) :=
  (Keyed.ofList fields : Keyed (Text × Value) Prod.fst).values

mutual

/-- What Python holds of a value, where a float is as `repr` writes it. -/
def Value.held (repr : Text → Text) : Value → Value
  | .float literal => .float (repr literal)
  | .array items => .array (heldItems repr items)
  | .object fields => .object (lastOfEach (heldFields repr fields))
  | v => v

def heldItems (repr : Text → Text) : List Value → List Value
  | [] => []
  | v :: vs => v.held repr :: heldItems repr vs

def heldFields (repr : Text → Text) : List (Text × Value) → List (Text × Value)
  | [] => []
  | (name, v) :: fields => (name, v.held repr) :: heldFields repr fields

end

/-- A float's text is a literal, and the text of the same float. -/
structure Reprs (repr : Text → Text) : Prop where
  literal : ∀ l, Literal l → Literal (repr l)
  idem : ∀ l, Literal l → repr (repr l) = repr l

/-- A value as Python holds it, which can be written. -/
def Held (repr : Text → Text) (room : ℕ) (v : Value) : Prop := Good room v ∧ v.held repr = v

variable {repr : Text → Text}

theorem nodup_lastOfEach (fields : List (Text × Value)) :
    ((lastOfEach fields).map Prod.fst).Nodup :=
  (Keyed.ofList fields : Keyed (Text × Value) Prod.fst).nodup

theorem lastOfEach_of_nodup {fields : List (Text × Value)} (h : (fields.map Prod.fst).Nodup) :
    lastOfEach fields = fields :=
  Keyed.values_ofList h

theorem goodFields_lastOfEach (h : GoodFields room fields) :
    GoodFields room (lastOfEach fields) :=
  fun f hf => h f (Keyed.mem_of_mem_ofList hf)

theorem heldFields_eq_self {fields : List (Text × Value)}
    (h : ∀ f ∈ fields, f.2.held repr = f.2) : heldFields repr fields = fields := by
  induction fields with
  | nil => rfl
  | cons f fields ih =>
    rw [List.forall_mem_cons] at h
    rw [heldFields, h.1, ih h.2]

mutual

theorem good_held (hrepr : Reprs repr) : ∀ v : Value, Good room v → Good room (v.held repr)
  | .float l, h => ⟨hrepr.literal l h.1, rfl⟩
  | .array items, h => by
    obtain ⟨hroom, hitems⟩ := of_good_array h
    rw [Value.held]
    exact good_array (goodItems_held hrepr items hitems) hroom
  | .object fields, h => by
    obtain ⟨hroom, hfields⟩ := of_good_object h
    rw [Value.held]
    exact good_object (goodFields_lastOfEach (goodFields_held hrepr fields hfields)) hroom
  | .null, h => h
  | .bool _, h => h
  | .int _, h => h
  | .string _, h => h

theorem goodItems_held (hrepr : Reprs repr) : ∀ items : List Value, (∀ v ∈ items, Good room v) →
    ∀ v ∈ heldItems repr items, Good room v
  | [], _ => by simp [heldItems]
  | v :: items, h => by
    rw [List.forall_mem_cons] at h
    rw [heldItems, List.forall_mem_cons]
    exact ⟨good_held hrepr v h.1, goodItems_held hrepr items h.2⟩

theorem goodFields_held (hrepr : Reprs repr) : ∀ fields : List (Text × Value),
    GoodFields room fields → GoodFields room (heldFields repr fields)
  | [], _ => by simp [heldFields, GoodFields]
  | (name, v) :: fields, h => by
    rw [GoodFields, List.forall_mem_cons] at h
    rw [heldFields, GoodFields, List.forall_mem_cons]
    exact ⟨⟨h.1.1, good_held hrepr v h.1.2⟩, goodFields_held hrepr fields h.2⟩

end

mutual

theorem held_held (hrepr : Reprs repr) :
    ∀ v : Value, Good room v → (v.held repr).held repr = v.held repr
  | .float l, h => by rw [Value.held, Value.held, hrepr.idem l h.1]
  | .array items, h => by
    rw [Value.held, Value.held, heldItems_held hrepr items (of_good_array h).2]
  | .object fields, h => by
    have hheld : ∀ f ∈ lastOfEach (heldFields repr fields), f.2.held repr = f.2 := fun f hf =>
      held_of_mem_heldFields hrepr fields (of_good_object h).2 f (Keyed.mem_of_mem_ofList hf)
    rw [Value.held, Value.held, heldFields_eq_self hheld,
      lastOfEach_of_nodup (nodup_lastOfEach _)]
  | .null, _ => rfl
  | .bool _, _ => rfl
  | .int _, _ => rfl
  | .string _, _ => rfl

theorem heldItems_held (hrepr : Reprs repr) : ∀ items : List Value, (∀ v ∈ items, Good room v) →
    heldItems repr (heldItems repr items) = heldItems repr items
  | [], _ => rfl
  | v :: items, h => by
    rw [List.forall_mem_cons] at h
    rw [heldItems, heldItems, held_held hrepr v h.1, heldItems_held hrepr items h.2]

theorem held_of_mem_heldFields (hrepr : Reprs repr) : ∀ fields : List (Text × Value),
    GoodFields room fields → ∀ f ∈ heldFields repr fields, f.2.held repr = f.2
  | [], _ => by simp [heldFields]
  | (name, v) :: fields, h => by
    rw [GoodFields, List.forall_mem_cons] at h
    rw [heldFields, List.forall_mem_cons]
    exact ⟨held_held hrepr v h.1.2, held_of_mem_heldFields hrepr fields h.2⟩

end

-- ---------------------------------------------------------------------------
-- Room
-- ---------------------------------------------------------------------------

mutual

theorem fits_mono (h : room ≤ limit) : ∀ v : Value, Fits room v → Fits limit v
  | .array items, hv => by
    rw [Fits] at hv ⊢
    exact ⟨hv.1.trans_le h, fitItems_mono (Nat.sub_le_sub_right h 1) items hv.2⟩
  | .object fields, hv => by
    rw [Fits] at hv ⊢
    exact ⟨hv.1.trans_le h, fitFields_mono (Nat.sub_le_sub_right h 1) fields hv.2⟩
  | .null, _ => trivial
  | .bool _, _ => trivial
  | .int _, hv => hv
  | .float _, hv => hv
  | .string _, hv => hv

theorem fitItems_mono (h : room ≤ limit) :
    ∀ items : List Value, FitItems room items → FitItems limit items
  | [], _ => trivial
  | v :: items, hv => ⟨fits_mono h v hv.1, fitItems_mono h items hv.2⟩

theorem fitFields_mono (h : room ≤ limit) :
    ∀ fields : List (Text × Value), FitFields room fields → FitFields limit fields
  | [], _ => trivial
  | (_, v) :: fields, hv => ⟨hv.1, fits_mono h v hv.2.1, fitFields_mono h fields hv.2.2⟩

end

mutual

/-- How deep containers nest in a value. -/
def Value.depth : Value → ℕ
  | .array items => itemsDepth items + 1
  | .object fields => fieldsDepth fields + 1
  | _ => 0

def itemsDepth : List Value → ℕ
  | [] => 0
  | v :: vs => max v.depth (itemsDepth vs)

def fieldsDepth : List (Text × Value) → ℕ
  | [] => 0
  | (_, v) :: fields => max v.depth (fieldsDepth fields)

end

mutual

theorem fits_of_depth : ∀ v : Value, Fits limit v → v.depth ≤ room → Fits room v
  | .array items, hv, h => by
    rw [Fits] at hv ⊢
    rw [Value.depth] at h
    exact ⟨by omega, fitItems_of_depth items hv.2 (Nat.le_sub_of_add_le h)⟩
  | .object fields, hv, h => by
    rw [Fits] at hv ⊢
    rw [Value.depth] at h
    exact ⟨by omega, fitFields_of_depth fields hv.2 (Nat.le_sub_of_add_le h)⟩
  | .null, _, _ => trivial
  | .bool _, _, _ => trivial
  | .int _, hv, _ => hv
  | .float _, hv, _ => hv
  | .string _, hv, _ => hv

theorem fitItems_of_depth :
    ∀ items : List Value, FitItems limit items → itemsDepth items ≤ room → FitItems room items
  | [], _, _ => trivial
  | v :: items, hv, h => by
    obtain ⟨hfirst, hrest⟩ := max_le_iff.mp h
    exact ⟨fits_of_depth v hv.1 hfirst, fitItems_of_depth items hv.2 hrest⟩

theorem fitFields_of_depth : ∀ fields : List (Text × Value), FitFields limit fields →
    fieldsDepth fields ≤ room → FitFields room fields
  | [], _, _ => trivial
  | (_, v) :: fields, hv, h => by
    obtain ⟨hfirst, hrest⟩ := max_le_iff.mp h
    exact ⟨hv.1, fits_of_depth v hv.2.1 hfirst, fitFields_of_depth fields hv.2.2 hrest⟩

end

mutual

theorem depth_le_of_fits : ∀ v : Value, Fits room v → v.depth ≤ room
  | .array items, hv => by
    rw [Fits] at hv
    have hitems := itemsDepth_le_of_fit items hv.2
    rw [Value.depth]
    omega
  | .object fields, hv => by
    rw [Fits] at hv
    have hfields := fieldsDepth_le_of_fit fields hv.2
    rw [Value.depth]
    omega
  | .null, _ => Nat.zero_le _
  | .bool _, _ => Nat.zero_le _
  | .int _, _ => Nat.zero_le _
  | .float _, _ => Nat.zero_le _
  | .string _, _ => Nat.zero_le _

theorem itemsDepth_le_of_fit : ∀ items : List Value, FitItems room items → itemsDepth items ≤ room
  | [], _ => Nat.zero_le _
  | v :: items, hv => max_le (depth_le_of_fits v hv.1) (itemsDepth_le_of_fit items hv.2)

theorem fieldsDepth_le_of_fit :
    ∀ fields : List (Text × Value), FitFields room fields → fieldsDepth fields ≤ room
  | [], _ => Nat.zero_le _
  | (_, v) :: fields, hv => max_le (depth_le_of_fits v hv.2.1) (fieldsDepth_le_of_fit fields hv.2.2)

end

theorem Good.of_depth (h : Good limit v) (hdepth : v.depth ≤ room) : Good room v :=
  ⟨fits_of_depth v h.1 hdepth, h.2⟩

theorem held_of_depth (hrepr : Reprs repr) (ht : ∀ c ∈ t, Scalar c) (h : loads limit t = .ok v)
    (hdepth : v.depth ≤ room) : Held repr room (v.held repr) := by
  have hgood := good_of_loads ht h
  exact ⟨good_held hrepr v (hgood.of_depth hdepth), held_held hrepr v hgood⟩

/-- `dumps` that can nest only so deep. -/
def dumpsWithin (limit : ℕ) (layout : Layout) (v : Value) : Except Raised Text :=
  if v.depth ≤ limit then dumps layout v else .error .recursionError

/-- What is held can be dumped where there is room, and is loaded as the same again. -/
theorem dumpsWithin_of_held (h : Held repr room v) (hwrite : room ≤ nesting) (hlimit : room ≤ limit)
    (layout : Layout) :
    ∃ t, dumpsWithin nesting layout v = .ok t ∧
      (loads limit t).map (Value.held repr) = .ok v := by
  obtain ⟨hdumps, hloads⟩ := dumps_of_good h.1 hlimit layout
  have hdepth : v.depth ≤ nesting := (depth_le_of_fits v h.1.1).trans hwrite
  refine ⟨JsonText.write layout 0 v, ?_, ?_⟩
  · rw [dumpsWithin, if_pos hdepth, hdumps]
  · rw [hloads, Except.map, h.2]

theorem Held.mono (h : Held repr room v) (hroom : room ≤ limit) : Held repr limit v :=
  ⟨⟨fits_mono hroom v h.1.1, h.1.2⟩, h.2⟩

/-- The fields of a dictionary that is held. -/
def HeldField (repr : Text → Text) (room : ℕ) (f : Text × Value) : Prop :=
  GoodText f.1 ∧ Held repr room f.2

theorem held_object {fields : List (Text × Value)} (hn : (fields.map Prod.fst).Nodup)
    (h : ∀ f ∈ fields, HeldField repr (room - 1) f) (hroom : 0 < room) :
    Held repr room (.object fields) := by
  refine ⟨good_object (fun f hf => ⟨(h f hf).1, (h f hf).2.1⟩) hroom, ?_⟩
  rw [Value.held, heldFields_eq_self fun f hf => (h f hf).2.2, lastOfEach_of_nodup hn]

theorem heldField_of_held (hrepr : Reprs repr) {fields : List (Text × Value)}
    (h : Held repr room (.object fields)) : ∀ f ∈ fields, HeldField repr (room - 1) f := by
  obtain ⟨hgood, hheld⟩ := h
  obtain ⟨-, hfields⟩ := of_good_object hgood
  rw [Value.held, Value.object.injEq] at hheld
  intro f hf
  refine ⟨(hfields f hf).1, (hfields f hf).2, ?_⟩
  rw [← hheld] at hf
  exact held_of_mem_heldFields hrepr fields hfields f (Keyed.mem_of_mem_ofList hf)

theorem held_array {items : List Value} (h : ∀ v ∈ items, Held repr (room - 1) v)
    (hroom : 0 < room) : Held repr room (.array items) := by
  refine ⟨good_array (fun v hv => (h v hv).1) hroom, ?_⟩
  rw [Value.held]
  congr 1
  induction items with
  | nil => rfl
  | cons v items ih =>
    rw [List.forall_mem_cons] at h
    rw [heldItems, h.1.2, ih h.2]

theorem held_of_held_array {items : List Value} (h : Held repr room (.array items)) :
    ∀ v ∈ items, Held repr (room - 1) v := by
  obtain ⟨hgood, hheld⟩ := h
  obtain ⟨-, hitems⟩ := of_good_array hgood
  rw [Value.held, Value.array.injEq] at hheld
  have hself : ∀ {l : List Value}, heldItems repr l = l → ∀ v ∈ l, v.held repr = v := by
    intro l hl
    induction l with
    | nil => simp
    | cons v l ih =>
      rw [heldItems, List.cons.injEq] at hl
      exact List.forall_mem_cons.mpr ⟨hl.1, ih hl.2⟩
  exact fun v hv => ⟨hitems v hv, hself hheld v hv⟩

end JsonText
