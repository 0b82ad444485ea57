import Mathlib.Data.List.Basic
import Wifucked.Lib.Numerals

/-!
# Reading JSON

What Python's `json.loads` makes of a text. The characters are grouped into
tokens one by one, and a stack of the arrays and objects that are open puts the
tokens together, so that the first thing that is wrong is what is raised. Whole
numbers of too many digits and containers that are too deep raise errors of
their own.
-/

namespace JsonText

/-- Code points, lone surrogates among them. -/
abbrev Text := List ℕ

def text (s : String) : Text := s.toList.map Char.toNat

inductive Value where
  | null
  | bool (b : Bool)
  | int (i : ℤ)
  /-- A literal with a point or an exponent, `NaN` or an infinity. -/
  | float (literal : Text)
  | string (s : Text)
  | array (items : List Value)
  /-- The fields in their order, the same name more than once among them. -/
  | object (fields : List (Text × Value))

inductive Raised where
  /-- `JSONDecodeError`. -/
  | decodeError
  /-- The `ValueError` of a number that is too long for `int`. -/
  | valueError
  | recursionError
  deriving DecidableEq, Repr

-- ---------------------------------------------------------------------------
-- Tokens
-- ---------------------------------------------------------------------------

inductive Token where
  | openArray
  | closeArray
  | openObject
  | closeObject
  | comma
  | colon
  | string (s : Text)
  | digits (negative : Bool) (digits : Text)
  | scalar (v : Value)
  | bad

/-- What the characters read so far are the start of. What is collected is
collected in reverse. -/
inductive Mode where
  | between
  | word (rest : List Char) (token : Token)
  /-- Whether an escaped high surrogate was last. -/
  | string (s : Text) (high : Bool)
  | escape (s : Text) (high : Bool)
  | unicode (s : Text) (high : Bool) (left : ℕ) (value : ℕ)
  | minus
  | zero (negative : Bool)
  | whole (negative : Bool) (digits : Text)
  /-- A point or an exponent that has no digit yet, after a number. -/
  | point (number : Token) (literal : Text)
  | exponent (number : Token) (literal : Text)
  | sign (number : Token) (literal : Text)
  | fraction (literal : Text)
  | power (literal : Text)
  | stuck

def isDigit (c : ℕ) : Bool := 48 ≤ c && c ≤ 57

def number (negative : Bool) (digits : Text) : Token := .digits negative digits.reverse

def literalOf (negative : Bool) (digits : Text) : Text :=
  digits ++ if negative then ['-'.toNat] else []

def float (literal : Text) : Token := .scalar (.float literal.reverse)

def start (c : ℕ) : List Token × Mode :=
  match Char.ofNat c with
  | ' ' => ([], .between)
  | '\t' => ([], .between)
  | '\n' => ([], .between)
  | '\r' => ([], .between)
  | '[' => ([.openArray], .between)
  | ']' => ([.closeArray], .between)
  | '{' => ([.openObject], .between)
  | '}' => ([.closeObject], .between)
  | ',' => ([.comma], .between)
  | ':' => ([.colon], .between)
  | '"' => ([], .string [] false)
  | 'n' => ([], .word "ull".toList (.scalar .null))
  | 't' => ([], .word "rue".toList (.scalar (.bool true)))
  | 'f' => ([], .word "alse".toList (.scalar (.bool false)))
  | 'N' => ([], .word "aN".toList (.scalar (.float (text "NaN"))))
  | 'I' => ([], .word "nfinity".toList (.scalar (.float (text "Infinity"))))
  | '-' => ([], .minus)
  | '0' => ([], .zero false)
  | _ => if isDigit c then ([], .whole false [c]) else ([.bad], .stuck)

/-- The token that ended before this character, and what the character starts. -/
def endNumber (number : Token) (c : ℕ) : List Token × Mode :=
  (number :: (start c).1, (start c).2)

def afterWhole (negative : Bool) (digits : Text) (c : ℕ) : List Token × Mode :=
  if c = '.'.toNat then ([], .point (number negative digits) (c :: literalOf negative digits))
  else if c = 'e'.toNat ∨ c = 'E'.toNat then
    ([], .exponent (number negative digits) (c :: literalOf negative digits))
  else endNumber (number negative digits) c

/-- An escaped low surrogate goes with the escaped high one before it. -/
def addUnit (s : Text) (high : Bool) (value : ℕ) : Mode :=
  match s with
  | first :: rest =>
    if high ∧ 0xDC00 ≤ value ∧ value ≤ 0xDFFF then
      .string ((0x10000 + (first - 0xD800) * 0x400 + (value - 0xDC00)) :: rest) false
    else .string (value :: s) (0xD800 ≤ value ∧ value ≤ 0xDBFF)
  | [] => .string [value] (0xD800 ≤ value ∧ value ≤ 0xDBFF)

def escaped (s : Text) (high : Bool) (c : ℕ) : List Token × Mode :=
  match Char.ofNat c with
  | '"' => ([], .string (c :: s) false)
  | '\\' => ([], .string (c :: s) false)
  | '/' => ([], .string (c :: s) false)
  | 'b' => ([], .string (8 :: s) false)
  | 'f' => ([], .string (12 :: s) false)
  | 'n' => ([], .string (10 :: s) false)
  | 'r' => ([], .string (13 :: s) false)
  | 't' => ([], .string (9 :: s) false)
  | 'u' => ([], .unicode s high 4 0)
  | _ => ([.bad], .stuck)

def next (mode : Mode) (c : ℕ) : List Token × Mode :=
  match mode with
  | .between => start c
  | .word [] token => (token :: (start c).1, (start c).2)
  | .word (w :: rest) token =>
    if c = w.toNat then ([], .word rest token) else ([.bad], .stuck)
  | .string s high =>
    if c = '"'.toNat then ([.string s.reverse], .between)
    else if c = '\\'.toNat then ([], .escape s high)
    else if c < 0x20 then ([.bad], .stuck)
    else ([], .string (c :: s) false)
  | .escape s high => escaped s high c
  | .unicode s high left value =>
    match Numerals.digit 16 (Char.ofNat c) with
    | none => ([.bad], .stuck)
    | some d =>
      if left ≤ 1 then ([], addUnit s high (value * 16 + d))
      else ([], .unicode s high (left - 1) (value * 16 + d))
  | .minus =>
    if c = 'I'.toNat then ([], .word "nfinity".toList (.scalar (.float (text "-Infinity"))))
    else if c = '0'.toNat then ([], .zero true)
    else if isDigit c then ([], .whole true [c])
    else ([.bad], .stuck)
  | .zero negative => afterWhole negative ['0'.toNat] c
  | .whole negative digits =>
    if isDigit c then ([], .whole negative (c :: digits)) else afterWhole negative digits c
  | .point number literal =>
    if isDigit c then ([], .fraction (c :: literal)) else ([number, .bad], .stuck)
  | .fraction literal =>
    if isDigit c then ([], .fraction (c :: literal))
    else if c = 'e'.toNat ∨ c = 'E'.toNat then ([], .exponent (float literal) (c :: literal))
    else endNumber (float literal) c
  | .exponent number literal =>
    if c = '+'.toNat ∨ c = '-'.toNat then ([], .sign number (c :: literal))
    else if isDigit c then ([], .power (c :: literal))
    else ([number, .bad], .stuck)
  | .sign number literal =>
    if isDigit c then ([], .power (c :: literal)) else ([number, .bad], .stuck)
  | .power literal =>
    if isDigit c then ([], .power (c :: literal)) else endNumber (float literal) c
  | .stuck => ([], .stuck)

def finish : Mode → List Token
  | .between => []
  | .word [] token => [token]
  | .zero negative => [number negative ['0'.toNat]]
  | .whole negative digits => [number negative digits]
  | .point number _ => [number, .bad]
  | .exponent number _ => [number, .bad]
  | .sign number _ => [number, .bad]
  | .fraction literal => [float literal]
  | .power literal => [float literal]
  | .stuck => []
  | _ => [.bad]

def tokens : Mode → Text → List Token
  | mode, [] => finish mode
  | mode, c :: cs => (next mode c).1 ++ tokens (next mode c).2 cs

-- ---------------------------------------------------------------------------
-- Values
-- ---------------------------------------------------------------------------

/-- An array or an object that is open, with what it holds so far in reverse. -/
inductive Frame where
  | array (items : List Value)
  | object (fields : List (Text × Value)) (name : Text)

/-- What may come next, inside these frames. -/
inductive Parsing where
  | value (frames : List Frame)
  | firstItem (frames : List Frame)
  | afterItem (items : List Value) (frames : List Frame)
  | firstName (frames : List Frame)
  | name (fields : List (Text × Value)) (frames : List Frame)
  | colon (fields : List (Text × Value)) (name : Text) (frames : List Frame)
  | afterField (fields : List (Text × Value)) (frames : List Frame)
  | done (v : Value)

def deliver (v : Value) : List Frame → Parsing
  | [] => .done v
  | .array items :: frames => .afterItem (v :: items) frames
  | .object fields name :: frames => .afterField ((name, v) :: fields) frames

def decimal (digits : Text) : ℕ := digits.foldl (fun n c => n * 10 + (c - 48)) 0

def int (negative : Bool) (digits : Text) : ℤ :=
  if negative then -decimal digits else decimal digits

/-- A token where a value must come; no more containers than the limit may be open. -/
def value (limit : ℕ) (frames : List Frame) : Token → Except Raised Parsing
  | .scalar v => .ok (deliver v frames)
  | .string s => .ok (deliver (.string s) frames)
  | .digits negative digits =>
    if Numerals.maxDigits < digits.length then .error .valueError
    else .ok (deliver (.int (int negative digits)) frames)
  | .openArray =>
    if limit ≤ frames.length then .error .recursionError else .ok (.firstItem frames)
  | .openObject =>
    if limit ≤ frames.length then .error .recursionError else .ok (.firstName frames)
  | _ => .error .decodeError

def parse (limit : ℕ) : Parsing → Token → Except Raised Parsing
  | .value frames, token => value limit frames token
  | .firstItem frames, .closeArray => .ok (deliver (.array []) frames)
  | .firstItem frames, token => value limit (.array [] :: frames) token
  | .afterItem items frames, .comma => .ok (.value (.array items :: frames))
  | .afterItem items frames, .closeArray => .ok (deliver (.array items.reverse) frames)
  | .firstName frames, .closeObject => .ok (deliver (.object []) frames)
  | .firstName frames, .string name => .ok (.colon [] name frames)
  | .name fields frames, .string name => .ok (.colon fields name frames)
  | .colon fields name frames, .colon => .ok (.value (.object fields name :: frames))
  | .afterField fields frames, .comma => .ok (.name fields frames)
  | .afterField fields frames, .closeObject => .ok (deliver (.object fields.reverse) frames)
  | _, _ => .error .decodeError

theorem bind_eq_ok {ε : Type u} {α β : Type v} {x : Except ε α} {f : α → Except ε β} {b : β} :
    (x >>= f) = .ok b ↔ ∃ a, x = .ok a ∧ f a = .ok b := by
  cases x with
  | error e =>
    constructor
    · intro h
      cases h
    · rintro ⟨a, h, -⟩
      cases h
  | ok a =>
    constructor
    · intro h
      exact ⟨a, rfl, h⟩
    · rintro ⟨a', h, hf⟩
      cases h
      exact hf

theorem bind_eq_error {ε : Type u} {α β : Type v} {x : Except ε α} {f : α → Except ε β} {e : ε} :
    (x >>= f) = .error e ↔ x = .error e ∨ ∃ a, x = .ok a ∧ f a = .error e := by
  cases x with
  | error e' =>
    constructor
    · intro h
      cases h
      exact .inl rfl
    · rintro (h | ⟨a, h, -⟩)
      · cases h
        rfl
      · cases h
  | ok a =>
    constructor
    · intro h
      exact .inr ⟨a, rfl, h⟩
    · rintro (h | ⟨a', h, hf⟩)
      · cases h
      · cases h
        exact hf

theorem foldlM_eq_ok {ε : Type u} {σ : Type v} {α : Type w} {f : σ → α → Except ε σ}
    {g : σ → α → σ} {P : α → Prop} (hf : ∀ s a s', f s a = .ok s' ↔ P a ∧ s' = g s a)
    {l : List α} {s s' : σ} :
    l.foldlM f s = .ok s' ↔ (∀ a ∈ l, P a) ∧ s' = l.foldl g s := by
  induction l generalizing s with
  | nil =>
    constructor
    · intro h
      cases h
      exact ⟨by simp, rfl⟩
    · rintro ⟨-, rfl⟩
      rfl
  | cons a l ih =>
    rw [List.foldlM_cons, bind_eq_ok, List.forall_mem_cons, List.foldl_cons]
    constructor
    · rintro ⟨t, ht, hl⟩
      obtain ⟨ha, rfl⟩ := (hf s a t).mp ht
      obtain ⟨hrest, hs⟩ := ih.mp hl
      exact ⟨⟨ha, hrest⟩, hs⟩
    · rintro ⟨⟨ha, hrest⟩, hs⟩
      exact ⟨g s a, (hf s a _).mpr ⟨ha, rfl⟩, ih.mpr ⟨hrest, hs⟩⟩

def loads (limit : ℕ) (t : Text) : Except Raised Value := do
  match ← (tokens .between t).foldlM (parse limit) (.value []) with
  | .done v => return v
  | _ => throw .decodeError

/-- A file as `read_text` finds it. Its reading of line ends changes only white
space between tokens. -/
inductive File where
  | absent
  /-- Reading it is an `OSError`. -/
  | unreadable
  /-- Its bytes are no text. -/
  | undecodable (bytes : Text)
  | text (t : Text)

-- ---------------------------------------------------------------------------
-- Objects
-- ---------------------------------------------------------------------------

/-- `dict.get`: of two fields with one name the last counts. -/
def get? (fields : List (Text × Value)) (name : Text) : Option Value := fields.reverse.lookup name

/-- This is one of the names. -/
def oneOf (names : List String) (t : Text) : Bool := t ∈ names.map text

theorem text_injective : Function.Injective text := by
  intro s t h
  have hchars : s.toList = t.toList :=
    List.map_injective_iff.mpr (fun c d hcd => Char.toNat_inj.mp hcd) h
  exact String.toList_injective hchars

@[simp] theorem oneOf_text (names : List String) (s : String) :
    oneOf names (text s) = true ↔ s ∈ names := by
  simp [oneOf, text_injective.eq_iff]

theorem oneOf_iff {names : List String} {t : Text} :
    oneOf names t = true ↔ ∃ s ∈ names, text s = t := by
  simp [oneOf]

theorem get?_concat (fields : List (Text × Value)) (field : Text × Value) (name : Text) :
    get? (fields ++ [field]) name = if field.1 = name then some field.2 else get? fields name := by
  rw [get?, List.reverse_append, List.reverse_singleton, List.singleton_append, List.lookup_cons]
  by_cases h : field.1 = name
  · simp [h]
  · simp [h, beq_false_of_ne (Ne.symm h), get?]

end JsonText
