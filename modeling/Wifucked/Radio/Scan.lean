import Wifucked.Lib.JsonText
import Wifucked.Lib.Lines
import Wifucked.Clock
import Wifucked.Radio

/-!
# Scans

`iw` prints a block for each access point that it hears: a line that says which
one, and lines for what is known of it. The lines are read one by one, and a
block is over where the next one begins or the text ends.
-/

namespace Wifucked.Radio

structure ScanDump where
  networks : List ScannedNetwork
  bssid : Option (List Char)
  ssid : Option (List Char)
  freq : ℤ
  signalDbm : ℤ
  secured : Bool

def isHexOrColon (c : Char) : Bool := c = ':' || (Numerals.digit 16 c).isSome

/-- `^BSS\s+([0-9a-fA-F:]{17})`. -/
def bssMatch (line : List Char) : Option (List Char) :=
  (after "BSS" line).bind fun rest =>
    let bssid := (rest.dropWhile Numerals.isSpace).take 17
    if rest.head?.any Numerals.isSpace ∧ bssid.length = 17 ∧ bssid.all isHexOrColon then some bssid
    else none

def firstWord (rest : List Char) : Option (List Char) := (words (Numerals.strip rest)).head?

namespace ScanDump

def init : ScanDump := ⟨[], none, none, 0, 0, false⟩

def flush (s : ScanDump) : List ScannedNetwork :=
  match given s.bssid, given s.ssid with
  | some bssid, some ssid =>
    s.networks ++
      [{ ssid := String.ofList ssid
         bssid := String.ofList (bssid.map Char.toLower)
         channel := freqToChannel s.freq
         signalDbm := s.signalDbm
         secured := s.secured }]
  | _, _ => s.networks

def field (s : ScanDump) (line : List Char) : ScanDump :=
  match after "freq:" line with
  | some rest => { s with freq := ((firstWord rest).bind Numerals.shortInt).getD s.freq }
  | none =>
    match after "signal:" line with
    | some rest =>
      let level := (firstWord rest).bind fun word => (Numerals.float word).map trunc
      { s with signalDbm := level.getD s.signalDbm }
    | none =>
      match after "SSID:" line with
      | some rest => { s with ssid := given (some (Numerals.strip rest)) }
      | none =>
        if (after "RSN:" line).isSome ∨ (after "WPA:" line).isSome then { s with secured := true }
        else s

def line (s : ScanDump) (raw : List Char) : ScanDump :=
  let line := Numerals.strip raw
  match bssMatch line with
  | some bssid => ⟨s.flush, some bssid, none, 0, 0, false⟩
  | none => if s.bssid = none then s else s.field line

end ScanDump

def parseScanDump (out : List Char) : List ScannedNetwork :=
  ((Lines.splitlines isBreak out).foldl ScanDump.line .init).flush

-- ---------------------------------------------------------------------------
-- Blocks as they are printed
-- ---------------------------------------------------------------------------

/-- A level with two decimals, hundredths in a number of 32 bits. -/
structure Level where
  negative : Bool
  whole : ℕ
  cents : ℕ
  cents_lt : cents < 100
  bits : whole * 100 + cents ≤ 2147483648

/-- In whole dBm, towards zero. -/
def Level.dBm (l : Level) : ℤ := if l.negative then -l.whole else l.whole

def Level.text (l : Level) : List Char := Numerals.decimal l.negative l.whole l.cents

/-- A line that begins no block and says nothing that is kept. -/
structure Unrelated (text : List Char) : Prop where
  bss : bssMatch (Numerals.strip text) = none
  keys : ∀ key ∈ ["freq:", "signal:", "SSID:", "RSN:", "WPA:"],
    after key (Numerals.strip text) = none

inductive BssLine where
  | freq (mhz : ℕ) (digits : (Nat.toDigits 10 mhz).length ≤ Numerals.maxDigits)
  | signal (level : Level)
  | ssid (name : List Char) (line : ∀ c ∈ name, isBreak c = false)
    (stripped : Numerals.strip name = name)
  | rsn (rest : List Char) (line : ∀ c ∈ rest, isBreak c = false)
  | wpa (rest : List Char) (line : ∀ c ∈ rest, isBreak c = false)
  | unrelated (text : List Char) (line : ∀ c ∈ text, isBreak c = false) (h : Unrelated text)

def BssLine.text : BssLine → List Char
  | .freq mhz _ => "freq:".toList ++ ' ' :: Nat.toDigits 10 mhz
  | .signal level => "signal:".toList ++ ' ' :: (level.text ++ " dBm".toList)
  | .ssid name _ _ => "SSID:".toList ++ ' ' :: name
  | .rsn rest _ => "RSN:".toList ++ rest
  | .wpa rest _ => "WPA:".toList ++ rest
  | .unrelated text _ _ => text

def BssLine.name? : BssLine → Option (List Char)
  | .ssid name _ _ => some name
  | _ => none

def BssLine.mhz? : BssLine → Option ℤ
  | .freq mhz _ => some mhz
  | _ => none

def BssLine.dBm? : BssLine → Option ℤ
  | .signal level => some level.dBm
  | _ => none

def BssLine.secures : BssLine → Bool
  | .rsn _ _ => true
  | .wpa _ _ => true
  | _ => false

/-- A block: the access point, what follows its name on the line, and the lines,
each after its indentation. -/
structure BssBlock where
  bssid : List Char
  suffix : List Char
  lines : List (List Char × BssLine)
  length_bssid : bssid.length = 17
  bssid_hex : bssid.all isHexOrColon
  suffix_line : ∀ c ∈ suffix, isBreak c = false
  indented : ∀ l ∈ lines, ∀ c ∈ l.1, c = ' ' ∨ c = '\t'

namespace BssBlock

def rendered (b : BssBlock) : List (List Char) :=
  ("BSS".toList ++ ' ' :: (b.bssid ++ b.suffix)) :: b.lines.map fun l => l.1 ++ l.2.text

def last {α : Type} (b : BssBlock) (field : BssLine → Option α) : Option α :=
  (b.lines.filterMap fun l => field l.2).getLast?

def ssid (b : BssBlock) : List Char := (b.last BssLine.name?).getD []

def mhz (b : BssBlock) : ℤ := (b.last BssLine.mhz?).getD 0

def dBm (b : BssBlock) : ℤ := (b.last BssLine.dBm?).getD 0

def secured (b : BssBlock) : Bool := b.lines.any fun l => l.2.secures

def network (b : BssBlock) : Option ScannedNetwork :=
  (given (some b.ssid)).map fun ssid =>
    { ssid := String.ofList ssid
      bssid := String.ofList (b.bssid.map Char.toLower)
      channel := freqToChannel b.mhz
      signalDbm := b.dBm
      secured := b.secured }

end BssBlock

def render (blocks : List BssBlock) : List Char := Lines.unlines (blocks.flatMap (·.rendered))

-- ---------------------------------------------------------------------------
-- One line
-- ---------------------------------------------------------------------------

theorem after_append (key : String) (rest : List Char) :
    after key (key.toList ++ rest) = some rest := by
  rw [after, if_pos (by simp), List.drop_left' String.length_toList]

theorem given_some {text : List Char} (h : text ≠ []) : given (some text) = some text :=
  Option.filter_some_pos (decide_eq_true h)

theorem after_of_head {key : String} (hkey : key.toList ≠ [])
    (h : key.toList.head? ≠ line.head?) : after key line = none := by
  unfold after
  rw [if_neg]
  intro hprefix
  obtain ⟨rest, rfl⟩ := List.isPrefixOf_iff_prefix.mp hprefix
  exact h (List.head?_append_of_ne_nil _ hkey).symm

theorem head?_words (line : List Char) :
    (words line).head? = given (some ((line.dropWhile Numerals.isSpace).takeWhile
      fun c => !Numerals.isSpace c)) := by
  induction line with
  | nil => rfl
  | cons c line ih =>
    unfold words at ih ⊢
    rw [List.splitOnP_cons_eq_if_modifyHead]
    by_cases hc : Numerals.isSpace c = true
    · rw [if_pos hc, List.filter_cons_of_neg (by simp), ih, List.dropWhile_cons_of_pos hc]
    · obtain ⟨first, rest, hpieces⟩ :=
        List.exists_cons_of_ne_nil (List.splitOnP_ne_nil Numerals.isSpace line)
      have hfirst := Lines.head?_splitOnP Numerals.isSpace line
      rw [hpieces, List.head?_cons, Option.some.injEq] at hfirst
      rw [if_neg hc, hpieces, List.modifyHead_cons, List.filter_cons_of_pos (by simp),
        List.head?_cons, List.dropWhile_cons_of_neg hc,
        List.takeWhile_cons_of_pos (by simpa using hc), ← hfirst, given_some (List.cons_ne_nil _ _)]

theorem firstWord_rdropWhile (rest : List Char) :
    firstWord (rest.rdropWhile Numerals.isSpace) = firstWord rest := by
  rw [firstWord, Numerals.strip_rdropWhile, firstWord]

/-- A word after a blank, with whatever stays of a tail that another blank begins. -/
theorem firstWord_eq {word tail : List Char} (hword : ∀ c ∈ word, Numerals.isSpace c = false)
    (hne : word ≠ [])
    (htail : (tail.rdropWhile Numerals.isSpace).takeWhile (fun c => !Numerals.isSpace c) = []) :
    firstWord (' ' :: (word ++ tail)) = some word := by
  have hends : word.head?.any (fun c => !Numerals.isSpace c) ∧
      word.getLast?.any (fun c => !Numerals.isSpace c) := by
    constructor
    · rw [List.head?_eq_some_head hne, Option.any_some, hword _ (List.head_mem hne)]
      rfl
    · rw [List.getLast?_eq_some_getLast hne, Option.any_some, hword _ (List.getLast_mem hne)]
      rfl
  have hstrip : Numerals.strip (' ' :: (word ++ tail)) =
      word ++ tail.rdropWhile Numerals.isSpace :=
    (Numerals.strip_blank _).trans (Numerals.strip_append hends.1 hends.2 tail)
  have hdrop : (word ++ tail.rdropWhile Numerals.isSpace).dropWhile Numerals.isSpace =
      word ++ tail.rdropWhile Numerals.isSpace := by
    rw [← hstrip, Numerals.dropWhile_strip]
  have htake : (word ++ tail.rdropWhile Numerals.isSpace).takeWhile
      (fun c => !Numerals.isSpace c) = word := by
    rw [List.takeWhile_append_of_pos fun c hc => by simp [hword c hc], htail, List.append_nil]
  rw [firstWord, hstrip, head?_words, hdrop, htake, given_some hne]

theorem digit_plain (h : d < 10) :
    Numerals.isSpace (Nat.digitChar d) = false ∧ isBreak (Nat.digitChar d) = false := by
  have hdigits : ∀ d < 10, Numerals.isSpace (Nat.digitChar d) = false ∧
      isBreak (Nat.digitChar d) = false := by decide
  exact hdigits d h

theorem digits_plain {n : ℕ} (h : c ∈ Nat.toDigits 10 n) :
    Numerals.isSpace c = false ∧ isBreak c = false := by
  obtain ⟨d, hd, rfl⟩ := Numerals.mem_toDigits (by decide) h
  exact digit_plain hd

theorem Level.plain {l : Level} (h : c ∈ l.text) :
    Numerals.isSpace c = false ∧ isBreak c = false := by
  have hcents := l.cents_lt
  simp only [text, Numerals.decimal, List.mem_append, List.mem_cons, List.not_mem_nil,
    or_false] at h
  rcases h with h | h | rfl | rfl | rfl
  · split at h
    · obtain rfl := List.mem_singleton.mp h
      decide
    · cases h
  · exact digits_plain h
  · decide
  · exact digit_plain (by omega)
  · exact digit_plain (by omega)

theorem trunc_level (l : Level) :
    trunc ((if l.negative then -1 else 1) * ((l.whole : ℚ) + l.cents / 100)) = l.dBm := by
  have hcents : (0 : ℚ) ≤ l.cents / 100 ∧ (l.cents : ℚ) / 100 < 1 := by
    have hlt : (l.cents : ℚ) < 100 := by exact_mod_cast l.cents_lt
    exact ⟨by positivity, by rw [div_lt_one (by norm_num)]; exact hlt⟩
  have hwhole : (0 : ℚ) ≤ l.whole := Nat.cast_nonneg _
  unfold trunc Level.dBm
  cases l.negative with
  | false =>
    rw [if_neg Bool.false_ne_true, if_neg Bool.false_ne_true, one_mul, if_pos (by linarith),
      Int.floor_eq_iff]
    push_cast
    constructor <;> linarith
  | true =>
    rw [if_pos rfl, if_pos rfl, neg_one_mul]
    split
    · rw [Int.floor_eq_iff]
      push_cast
      constructor <;> linarith
    · rw [Int.ceil_eq_iff]
      push_cast
      constructor <;> linarith

def BssLine.say (s : ScanDump) : BssLine → ScanDump
  | .freq mhz _ => { s with freq := mhz }
  | .signal level => { s with signalDbm := level.dBm }
  | .ssid name _ _ => { s with ssid := given (some name) }
  | .rsn _ _ => { s with secured := true }
  | .wpa _ _ => { s with secured := true }
  | .unrelated _ _ _ => s

/-- A key is no blank at its start and at its end. -/
structure Key (key : String) : Prop where
  ne_nil : key.toList ≠ []
  first : key.toList.head?.any fun c => !Numerals.isSpace c
  last : key.toList.getLast?.any fun c => !Numerals.isSpace c

theorem line_keyed {key : String} (hkey : Key key) (hbss : key.toList.head? ≠ some 'B')
    {s : ScanDump} (hs : s.bssid ≠ none) {indent : List Char}
    (hindent : ∀ c ∈ indent, Numerals.isSpace c = true) (rest : List Char) :
    s.line (indent ++ (key.toList ++ rest)) =
      s.field (key.toList ++ rest.rdropWhile Numerals.isSpace) := by
  have hstrip : Numerals.strip (indent ++ (key.toList ++ rest)) =
      key.toList ++ rest.rdropWhile Numerals.isSpace := by
    rw [Numerals.strip_space_append hindent, Numerals.strip_append hkey.first hkey.last]
  have hhead : (key.toList ++ rest.rdropWhile Numerals.isSpace).head? = key.toList.head? :=
    List.head?_append_of_ne_nil _ hkey.ne_nil
  have hmatch : bssMatch (key.toList ++ rest.rdropWhile Numerals.isSpace) = none := by
    rw [bssMatch, after_of_head (by decide) (by rw [hhead]; exact fun h => hbss h.symm)]
    rfl
  unfold ScanDump.line
  simp only [hstrip, hmatch, hs, if_false]

theorem after_other {key other : String} (hkey : Key key) (hother : Key other)
    (h : other.toList.head? ≠ key.toList.head?) (rest : List Char) :
    after other (key.toList ++ rest) = none :=
  after_of_head hother.ne_nil (by rwa [List.head?_append_of_ne_nil _ hkey.ne_nil])

theorem key_freq : Key "freq:" := ⟨by decide, by decide, by decide⟩

theorem key_signal : Key "signal:" := ⟨by decide, by decide, by decide⟩

theorem key_ssid : Key "SSID:" := ⟨by decide, by decide, by decide⟩

theorem key_rsn : Key "RSN:" := ⟨by decide, by decide, by decide⟩

theorem key_wpa : Key "WPA:" := ⟨by decide, by decide, by decide⟩

theorem BssLine.text_freq (mhz : ℕ) (digits) :
    (BssLine.freq mhz digits).text = "freq:".toList ++ ' ' :: Nat.toDigits 10 mhz := rfl

theorem BssLine.text_signal (level : Level) :
    (BssLine.signal level).text = "signal:".toList ++ ' ' :: (level.text ++ " dBm".toList) := rfl

theorem BssLine.text_ssid (name : List Char) (hline) (hstripped) :
    (BssLine.ssid name hline hstripped).text = "SSID:".toList ++ ' ' :: name := rfl

theorem BssLine.text_rsn (rest : List Char) (hline) :
    (BssLine.rsn rest hline).text = "RSN:".toList ++ rest := rfl

theorem BssLine.text_wpa (rest : List Char) (hline) :
    (BssLine.wpa rest hline).text = "WPA:".toList ++ rest := rfl

theorem BssLine.text_unrelated (text : List Char) (hline) (h) :
    (BssLine.unrelated text hline h).text = text := rfl

theorem field_secured {key : String} (hkey : key = "RSN:" ∨ key = "WPA:") (s : ScanDump)
    (rest : List Char) : s.field (key.toList ++ rest) = { s with secured := true } := by
  unfold ScanDump.field
  rcases hkey with rfl | rfl
  · rw [after_other key_rsn key_freq (by decide), after_other key_rsn key_signal (by decide),
      after_other key_rsn key_ssid (by decide), if_pos (.inl (by rw [after_append]; rfl))]
  · rw [after_other key_wpa key_freq (by decide), after_other key_wpa key_signal (by decide),
      after_other key_wpa key_ssid (by decide), if_pos (.inr (by rw [after_append]; rfl))]

theorem line_say (l : BssLine) {s : ScanDump} (hs : s.bssid ≠ none) {indent : List Char}
    (hindent : ∀ c ∈ indent, Numerals.isSpace c = true) :
    s.line (indent ++ l.text) = l.say s := by
  cases l with
  | freq mhz digits =>
    have hword : firstWord (' ' :: (Nat.toDigits 10 mhz ++ [])) = some (Nat.toDigits 10 mhz) :=
      firstWord_eq (fun c hc => (digits_plain hc).1) Nat.toDigits_ne_nil rfl
    rw [List.append_nil] at hword
    rw [BssLine.text_freq, line_keyed key_freq (by decide) hs hindent, ScanDump.field, after_append]
    have hfreq : Numerals.shortInt (Nat.toDigits 10 mhz) = some (mhz : ℤ) := by
      rw [Numerals.shortInt_toDigits, if_pos]
      exact (Nat.length_toDigits_le_iff (by decide) (by decide)).mp digits
    simp only [firstWord_rdropWhile, hword, Option.bind_some, hfreq, Option.getD_some,
      BssLine.say]
  | signal level =>
    have hne : level.text ≠ [] := by simp [Level.text, Numerals.decimal]
    have hword : firstWord (' ' :: (level.text ++ " dBm".toList)) = some level.text :=
      firstWord_eq (fun c hc => (Level.plain hc).1) hne (by decide)
    have hfloat : Numerals.float level.text = _ :=
      Numerals.float_decimal level.negative level.whole level.cents_lt
    rw [BssLine.text_signal, line_keyed key_signal (by decide) hs hindent, ScanDump.field,
      after_other key_signal key_freq (by decide), after_append]
    simp only [firstWord_rdropWhile, hword, Option.bind_some, hfloat, Option.map_some,
      trunc_level, Option.getD_some, BssLine.say]
  | ssid name hline hstripped =>
    have hstrip : Numerals.strip (' ' :: name) = name := (Numerals.strip_blank name).trans hstripped
    rw [BssLine.text_ssid, line_keyed key_ssid (by decide) hs hindent, ScanDump.field,
      after_other key_ssid key_freq (by decide), after_other key_ssid key_signal (by decide),
      after_append]
    simp only [Numerals.strip_rdropWhile, hstrip, BssLine.say]
  | rsn rest hline =>
    rw [BssLine.text_rsn, line_keyed key_rsn (by decide) hs hindent, field_secured (.inl rfl)]
    rfl
  | wpa rest hline =>
    rw [BssLine.text_wpa, line_keyed key_wpa (by decide) hs hindent, field_secured (.inr rfl)]
    rfl
  | unrelated text hline h =>
    have hfreq := h.keys "freq:" (by simp)
    have hsignal := h.keys "signal:" (by simp)
    have hssid := h.keys "SSID:" (by simp)
    have hrsn := h.keys "RSN:" (by simp)
    have hwpa := h.keys "WPA:" (by simp)
    unfold ScanDump.line
    simp only [BssLine.text_unrelated, Numerals.strip_space_append hindent, h.bss, hs, if_false,
      ScanDump.field, hfreq, hsignal, hssid, hrsn, hwpa, Option.isSome_none, Bool.false_eq_true,
      or_self, BssLine.say]

theorem isBreak_of_isSpace (h : Numerals.isSpace c = false) : isBreak c = false := by
  rw [Numerals.isSpace] at h
  rw [isBreak]
  simp only [List.mem_cons, List.not_mem_nil, or_false, Bool.or_eq_false_iff,
    decide_eq_false_iff_not, Bool.and_eq_false_iff, not_or] at h ⊢
  omega

theorem keyed_plain {key rest : List Char} (hkey : key.all fun c => !isBreak c)
    (hrest : ∀ c ∈ rest, isBreak c = false) : ∀ c ∈ key ++ rest, isBreak c = false := by
  intro c hc
  rcases List.mem_append.mp hc with hc | hc
  · simpa using List.all_eq_true.mp hkey c hc
  · exact hrest c hc

theorem blank_plain {rest : List Char} (hrest : ∀ c ∈ rest, isBreak c = false) :
    ∀ c ∈ ' ' :: rest, isBreak c = false :=
  List.forall_mem_cons.mpr ⟨by decide, hrest⟩

theorem BssLine.text_plain (l : BssLine) : ∀ c ∈ l.text, isBreak c = false := by
  cases l with
  | freq mhz digits =>
    exact keyed_plain (by decide) (blank_plain fun c hc => (digits_plain hc).2)
  | signal level =>
    refine keyed_plain (by decide) (blank_plain fun c hc => ?_)
    rcases List.mem_append.mp hc with hc | hc
    · exact (Level.plain hc).2
    · have hunit : " dBm".toList.all fun c => !isBreak c := by decide
      simpa using List.all_eq_true.mp hunit c hc
  | ssid name hline hstripped => exact keyed_plain (by decide) (blank_plain hline)
  | rsn rest hline => exact keyed_plain (by decide) hline
  | wpa rest hline => exact keyed_plain (by decide) hline
  | unrelated text hline h => exact hline

-- ---------------------------------------------------------------------------
-- Blocks
-- ---------------------------------------------------------------------------

def sayLine (s : ScanDump) (l : List Char × BssLine) : ScanDump := l.2.say s

@[simp] theorem bssid_say (s : ScanDump) (l : BssLine) : (l.say s).bssid = s.bssid := by
  cases l <;> rfl

@[simp] theorem networks_say (s : ScanDump) (l : BssLine) : (l.say s).networks = s.networks := by
  cases l <;> rfl

theorem foldl_lines {lines : List (List Char × BssLine)} {s : ScanDump} (hs : s.bssid ≠ none)
    (hindented : ∀ l ∈ lines, ∀ c ∈ l.1, c = ' ' ∨ c = '\t') :
    (lines.map fun l => l.1 ++ l.2.text).foldl ScanDump.line s = Runs.exec sayLine s lines := by
  induction lines generalizing s with
  | nil => rfl
  | cons l lines ih =>
    obtain ⟨hl, hlines⟩ := List.forall_mem_cons.mp hindented
    have hindent : ∀ c ∈ l.1, Numerals.isSpace c = true := by
      intro c hc
      rcases hl c hc with rfl | rfl <;> decide
    rw [List.map_cons, List.foldl_cons, line_say l.2 hs hindent, Runs.exec_cons, ← sayLine,
      ih (by simpa [sayLine] using hs) hlines]

theorem getLast?_filterMap_true {α : Type} (p : α → Bool) (l : List α) :
    (l.filterMap fun a => if p a then some true else none).getLast?.getD false = l.any p := by
  induction l with
  | nil => rfl
  | cons a l ih =>
    cases hp : p a with
    | false => rw [List.filterMap_cons_none (by simp [hp]), ih, List.any_cons, hp, Bool.false_or]
    | true =>
      rw [List.filterMap_cons_some (by rw [hp]; rfl), List.getLast?_cons, List.any_cons, hp]
      cases hl : (l.filterMap fun a => if p a then some true else none).getLast? with
      | none => rfl
      | some last =>
        obtain ⟨c, -, hc⟩ := List.mem_filterMap.mp (List.mem_of_getLast? hl)
        split at hc
        · exact (Option.some.inj hc).symm
        · cases hc

theorem given_given (text : Option (List Char)) : given (given text) = given text := by
  simp [given]

namespace BssBlock

def opened (b : BssBlock) (networks : List ScannedNetwork) : ScanDump :=
  ⟨networks, some b.bssid, none, 0, 0, false⟩

variable (b : BssBlock) (networks : List ScannedNetwork)

theorem ssid_exec :
    (Runs.exec sayLine (b.opened networks) b.lines).ssid = given (some b.ssid) := by
  have h : (Runs.exec sayLine (b.opened networks) b.lines).ssid = _ :=
    Runs.obs_exec (fun s : ScanDump => s.ssid)
      (fun l : List Char × BssLine => l.2.name?.map fun name => given (some name))
      (by rintro s ⟨indent, l⟩; cases l <;> rfl)
  rw [← List.map_filterMap, List.getLast?_map] at h
  rw [h, ssid, last]
  cases (b.lines.filterMap fun l => l.2.name?).getLast? with
  | none => rfl
  | some name => rfl

theorem freq_exec : (Runs.exec sayLine (b.opened networks) b.lines).freq = b.mhz :=
  Runs.obs_exec (fun s : ScanDump => s.freq) (fun l : List Char × BssLine => l.2.mhz?)
    (by rintro s ⟨indent, l⟩; cases l <;> rfl)

theorem signalDbm_exec : (Runs.exec sayLine (b.opened networks) b.lines).signalDbm = b.dBm :=
  Runs.obs_exec (fun s : ScanDump => s.signalDbm) (fun l : List Char × BssLine => l.2.dBm?)
    (by rintro s ⟨indent, l⟩; cases l <;> rfl)

theorem secured_exec : (Runs.exec sayLine (b.opened networks) b.lines).secured = b.secured := by
  rw [secured, ← getLast?_filterMap_true]
  exact Runs.obs_exec (fun s : ScanDump => s.secured)
    (fun l : List Char × BssLine => if l.2.secures then some true else none)
    (by rintro s ⟨indent, l⟩; cases l <;> rfl)

theorem bssid_exec : (Runs.exec sayLine (b.opened networks) b.lines).bssid = some b.bssid :=
  Runs.exec_keeps (P := fun s : ScanDump => s.bssid = some b.bssid)
    (fun s l _ h => (bssid_say s l.2).trans h) rfl

theorem networks_exec : (Runs.exec sayLine (b.opened networks) b.lines).networks = networks :=
  Runs.exec_keeps (P := fun s : ScanDump => s.networks = networks)
    (fun s l _ h => (networks_say s l.2).trans h) rfl

theorem bssid_ne_nil : b.bssid ≠ [] := by
  intro h
  have hlength := b.length_bssid
  rw [h] at hlength
  cases hlength

/-- A block that is over leaves its network, and nothing of it is left for the next. -/
theorem flush_exec :
    (Runs.exec sayLine (b.opened networks) b.lines).flush = networks ++ b.network.toList := by
  unfold ScanDump.flush network
  rw [bssid_exec, ssid_exec, freq_exec, signalDbm_exec, secured_exec, networks_exec,
    given_some b.bssid_ne_nil, given_given]
  cases given (some b.ssid) with
  | none => simp
  | some ssid => rfl

theorem bssid_plain (hc : c ∈ b.bssid) : Numerals.isSpace c = false := by
  have hex := List.all_eq_true.mp b.bssid_hex c hc
  by_contra hspace
  have hdigit : Numerals.digit 16 c = none := Numerals.digit_eq_none (by simpa using hspace)
  rw [isHexOrColon, hdigit] at hex
  obtain rfl : c = ':' := by simpa using hex
  exact hspace (by decide)

theorem bssMatch_append (r : List Char) :
    bssMatch ("BSS".toList ++ ' ' :: (b.bssid ++ r)) = some b.bssid := by
  have hdrop : (' ' :: (b.bssid ++ r)).dropWhile Numerals.isSpace = b.bssid ++ r := by
    obtain ⟨c, rest, hcons⟩ := List.exists_cons_of_ne_nil b.bssid_ne_nil
    have hc : Numerals.isSpace c = false := b.bssid_plain (by rw [hcons]; exact List.mem_cons_self)
    rw [List.dropWhile_cons_of_pos (by decide), hcons, List.cons_append,
      List.dropWhile_cons_of_neg (by simp [hc])]
  have htake : (b.bssid ++ r).take 17 = b.bssid := List.take_left' b.length_bssid
  rw [bssMatch, after_append, Option.bind_some]
  simp only [hdrop, htake, b.length_bssid, b.bssid_hex, List.head?_cons, Option.any_some]
  rfl

theorem line_header (s : ScanDump) :
    s.line ("BSS".toList ++ ' ' :: (b.bssid ++ b.suffix)) = b.opened s.flush := by
  have hlast : (("BSS".toList ++ [' ']) ++ b.bssid).getLast?.any
      fun c => !Numerals.isSpace c := by
    rw [List.getLast?_append_of_ne_nil _ b.bssid_ne_nil,
      List.getLast?_eq_some_getLast b.bssid_ne_nil, Option.any_some,
      b.bssid_plain (List.getLast_mem b.bssid_ne_nil)]
    rfl
  have hstrip := Numerals.strip_append (l := ("BSS".toList ++ [' ']) ++ b.bssid) rfl hlast b.suffix
  simp only [List.append_assoc, List.cons_append, List.nil_append] at hstrip
  unfold ScanDump.line
  simp only [hstrip, bssMatch_append]
  rfl

theorem foldl_rendered (s : ScanDump) :
    (b.rendered.foldl ScanDump.line s).flush = s.flush ++ b.network.toList := by
  rw [rendered, List.foldl_cons, line_header, foldl_lines (by simp [opened]) b.indented, flush_exec]

theorem rendered_plain (hline : line ∈ b.rendered) : ∀ c ∈ line, isBreak c = false := by
  rcases List.mem_cons.mp hline with rfl | hline
  · refine keyed_plain (by decide) (blank_plain fun c hc => ?_)
    rcases List.mem_append.mp hc with hc | hc
    · exact isBreak_of_isSpace (b.bssid_plain hc)
    · exact b.suffix_line c hc
  · obtain ⟨l, hl, rfl⟩ := List.mem_map.mp hline
    intro c hc
    rcases List.mem_append.mp hc with hc | hc
    · rcases b.indented l hl c hc with rfl | rfl <;> decide
    · exact l.2.text_plain c hc

end BssBlock

theorem foldl_blocks (blocks : List BssBlock) (s : ScanDump) :
    ((blocks.flatMap (·.rendered)).foldl ScanDump.line s).flush =
      s.flush ++ blocks.filterMap (·.network) := by
  induction blocks generalizing s with
  | nil => simp
  | cons b blocks ih =>
    rw [List.flatMap_cons, List.foldl_append, ih, b.foldl_rendered, List.append_assoc]
    cases hn : b.network with
    | none => rw [List.filterMap_cons_none hn]; rfl
    | some network => rw [List.filterMap_cons_some hn]; rfl

/-- Each block that names a network is one, with what its own lines say. -/
theorem parseScanDump_render (blocks : List BssBlock) :
    parseScanDump (render blocks) = blocks.filterMap (·.network) := by
  have hplain : ∀ line ∈ blocks.flatMap (·.rendered), ∀ c ∈ line, isBreak c = false := by
    intro line hline
    obtain ⟨b, -, hline⟩ := List.mem_flatMap.mp hline
    exact b.rendered_plain hline
  rw [parseScanDump, render, Lines.splitlines_unlines (by decide) (by decide) hplain, foldl_blocks]
  rfl

end Wifucked.Radio
