import Mathlib.Data.List.Infix

/-!
# Words of a shell

How a POSIX shell reads words and lines with quotes in them, and the quoting that
makes one word of any text. What has another meaning outside quotes, or is
replaced inside of double ones, is not read: such a text is `none` here.
-/

namespace ShellWords

/-- Where the reader is, with what it has of a word, if it is in one. -/
inductive Mode where
  | outside (word : Option (List Char))
  | escaped (word : Option (List Char))
  | single (word : List Char)
  | double (word : List Char)
  | doubleEscaped (word : List Char)

inductive Token where
  | word (w : List Char)
  | newline
  deriving DecidableEq

/-- A pattern, a comment, an expansion or an operator begins with it. -/
def special : List Char :=
  ['|', '&', ';', '<', '>', '(', ')', '$', '`', '*', '?', '[', '~', '#', '!', '\x7b', '\x7d']

def add (word : Option (List Char)) (c : Char) : List Char := word.getD [] ++ [c]

def ended : Option (List Char) → List Token
  | none => []
  | some w => [.word w]

def next : Mode → Char → Option (List Token × Mode)
  | .outside word, c =>
    if c = ' ' ∨ c = '\t' then some (ended word, .outside none)
    else if c = '\n' then some (ended word ++ [.newline], .outside none)
    else if c = '\'' then some ([], .single (word.getD []))
    else if c = '"' then some ([], .double (word.getD []))
    else if c = '\\' then some ([], .escaped word)
    else if c ∈ special then none
    else some ([], .outside (some (add word c)))
  -- a line that goes on has no end
  | .escaped word, c => some ([], .outside (if c = '\n' then word else some (add word c)))
  | .single w, c => some ([], if c = '\'' then .outside (some w) else .single (w ++ [c]))
  | .double w, c =>
    if c = '"' then some ([], .outside (some w))
    else if c = '\\' then some ([], .doubleEscaped w)
    else if c = '$' ∨ c = '`' then none
    else some ([], .double (w ++ [c]))
  | .doubleEscaped w, c =>
    if c = '\n' then some ([], .double w)
    else if c ∈ ['$', '`', '"', '\\'] then some ([], .double (w ++ [c]))
    else some ([], .double (w ++ ['\\', c]))

/-- Quotes that are open at the end are an error. -/
def finish : Mode → Option (List Token)
  | .outside word => some (ended word)
  | _ => none

def scan : Mode → List Char → Option (List Token)
  | mode, [] => finish mode
  | mode, c :: cs =>
    match next mode c with
    | none => none
    | some (tokens, mode) => (scan mode cs).map (tokens ++ ·)

/-- The words of each line, where it has some. -/
def commands (tokens : List Token) : List (List (List Char)) :=
  ((tokens.splitOnP (· = .newline)).map fun line =>
    line.filterMap fun | .word w => some w | .newline => none).filter (· ≠ [])

def read (text : List Char) : Option (List (List (List Char))) :=
  (scan (.outside none) text).map commands

/-- A parenthesis opens on the first line behind two words or more, of a command
that is no definition of a function: a syntax error. -/
def unexpected : Mode → ℕ → List Char → Bool
  | _, _, [] => false
  | mode, n, c :: cs =>
    match next mode c with
    | none =>
      match mode, c with
      | .outside word, '(' => 2 ≤ n + (ended word).length
      | _, _ => false
    | some (tokens, mode) =>
      if Token.newline ∈ tokens then false else unexpected mode (n + tokens.length) cs

-- ---------------------------------------------------------------------------
-- Quoting
-- ---------------------------------------------------------------------------

def isSafe (c : Char) : Bool := c.isAlphanum || c ∈ "_@%+=:,./-".toList

/-- A single quote ends the quotes, stands in double ones, and opens others. -/
def escape (s : List Char) : List Char :=
  s.flatMap fun c => if c = '\'' then "'\"'\"'".toList else [c]

def quote (s : List Char) : List Char :=
  if s = [] then ['\'', '\'']
  else if s.all isSafe then s
  else '\'' :: escape s ++ ['\'']

theorem next_safe (h : isSafe c = true) (word : Option (List Char)) :
    next (.outside word) c = some ([], .outside (some (add word c))) := by
  have hne : ∀ d : Char, isSafe d = false → c ≠ d := by
    rintro d hd rfl
    rw [h] at hd
    cases hd
  have hspecial : c ∉ special := by
    intro hmem
    have hall : special.all fun d => !isSafe d := by decide
    exact hne c (by simpa using List.all_eq_true.mp hall c hmem) rfl
  simp [next, hne ' ' (by decide), hne '\t' (by decide), hne '\n' (by decide),
    hne '\'' (by decide), hne '"' (by decide), hne '\\' (by decide), hspecial]

theorem scan_cons (h : next mode c = some ([], mode')) (cs : List Char) :
    scan mode (c :: cs) = scan mode' cs := by
  rw [scan, h]
  simp

theorem scan_safe (h : ∀ c ∈ s, isSafe c = true) (hs : s ≠ []) (word : Option (List Char))
    (rest : List Char) :
    scan (.outside word) (s ++ rest) = scan (.outside (some (word.getD [] ++ s))) rest := by
  induction s generalizing word with
  | nil => exact absurd rfl hs
  | cons c s ih =>
    rw [List.forall_mem_cons] at h
    rw [List.cons_append, scan_cons (next_safe h.1 word)]
    cases s with
    | nil => rfl
    | cons d s =>
      rw [ih h.2 (by simp)]
      simp [add]

theorem next_single (h : c ≠ '\'') (w : List Char) :
    next (.single w) c = some ([], .single (w ++ [c])) := by
  simp only [next, if_neg h]

theorem scan_escape (s w rest : List Char) :
    scan (.single w) (escape s ++ '\'' :: rest) = scan (.outside (some (w ++ s))) rest := by
  induction s generalizing w with
  | nil =>
    rw [List.append_nil]
    exact scan_cons rfl rest
  | cons c s ih =>
    have happend : w ++ c :: s = (w ++ [c]) ++ s := by simp
    rw [happend, ← ih, escape, List.flatMap_cons, ← escape]
    split
    · rename_i hc
      subst hc
      change scan (.single w) ('\'' :: '"' :: '\'' :: '"' :: '\'' :: (escape s ++ '\'' :: rest)) = _
      rw [scan_cons rfl, scan_cons rfl, scan_cons rfl, scan_cons rfl, scan_cons rfl]
      rfl
    · rename_i hc
      exact scan_cons (next_single hc w) _

theorem scan_quote (s : List Char) (word : Option (List Char)) (rest : List Char) :
    scan (.outside word) (quote s ++ rest) = scan (.outside (some (word.getD [] ++ s))) rest := by
  unfold quote
  split
  · rename_i hs
    subst hs
    rw [List.append_nil]
    exact (scan_cons rfl _).trans (scan_cons rfl _)
  · rename_i hs
    split
    · rename_i hsafe
      exact scan_safe (List.all_eq_true.mp hsafe) hs word rest
    · rw [List.cons_append, List.cons_append, List.append_assoc, List.singleton_append,
        scan_cons rfl, scan_escape]

theorem mem_quote (h : c ∈ quote s) : c ∈ s ∨ c = '\'' ∨ c = '"' := by
  have hescape : c ∈ escape s → c ∈ s ∨ c = '\'' ∨ c = '"' := by
    intro hmem
    obtain ⟨d, hd, hc⟩ := List.mem_flatMap.mp hmem
    split at hc
    · simp at hc
      tauto
    · rw [List.mem_singleton.mp hc]
      exact .inl hd
  unfold quote at h
  split at h
  · simp at h
    exact .inr (.inl h)
  · split at h
    · exact .inl h
    · simp only [List.cons_append, List.mem_cons, List.mem_append, List.not_mem_nil, or_false] at h
      rcases h with h | h | h
      · exact .inr (.inl h)
      · exact hescape h
      · exact .inr (.inl h)

theorem quote_ne_nil (s : List Char) : quote s ≠ [] := by
  unfold quote
  split
  · simp
  · split
    · assumption
    · simp

theorem quote_ends (s : List Char) : (quote s).getLast? ≠ some '\n' := by
  unfold quote
  split
  · simp
  · split
    · rename_i hsafe
      intro h
      have hnewline := List.all_eq_true.mp hsafe _ (List.mem_of_getLast? h)
      revert hnewline
      decide
    · rw [List.getLast?_concat]
      decide

-- ---------------------------------------------------------------------------
-- Lines
-- ---------------------------------------------------------------------------

theorem scan_blank (word : Option (List Char)) (rest : List Char) :
    scan (.outside word) (' ' :: rest) = (scan (.outside none) rest).map (ended word ++ ·) := rfl

theorem scan_newline (word : Option (List Char)) (rest : List Char) :
    scan (.outside word) ('\n' :: rest) =
      (scan (.outside none) rest).map (ended word ++ [.newline] ++ ·) := rfl

/-- Two words, the second one put together of a plain text and a quoted one. -/
def line (first start : List Char) (value : List Char) : List Char :=
  first ++ ' ' :: (start ++ quote value)

def Plain (s : List Char) : Prop := s ≠ [] ∧ ∀ c ∈ s, isSafe c = true

variable {first start : List Char}

theorem scan_line (hfirst : Plain first) (hstart : Plain start) (value rest : List Char) :
    scan (.outside none) (line first start value ++ rest) =
      (scan (.outside (some (start ++ value))) rest).map ([.word first] ++ ·) := by
  rw [line, List.append_assoc, scan_safe hfirst.2 hfirst.1, List.cons_append, scan_blank,
    List.append_assoc, scan_safe hstart.2 hstart.1, scan_quote]
  rfl

theorem line_ends (first start value : List Char) :
    (line first start value).getLast? ≠ some '\n' := by
  have hends := quote_ends value
  rw [line, ← List.singleton_append, ← List.append_assoc, ← List.append_assoc,
    List.getLast?_append_of_ne_nil _ (quote_ne_nil value)]
  exact hends

theorem mem_line (h : c ∈ line first start value) :
    c ∈ first ∨ c = ' ' ∨ c ∈ start ∨ c ∈ value ∨ c = '\'' ∨ c = '"' := by
  simp only [line, List.mem_append, List.mem_cons] at h
  rcases h with h | h | h | h
  · exact .inl h
  · exact .inr (.inl h)
  · exact .inr (.inr (.inl h))
  · exact .inr (.inr (.inr (mem_quote h)))

theorem filterMap_words (words : List (List Char)) :
    (words.map Token.word).filterMap (fun | .word w => some w | .newline => none) = words := by
  induction words with
  | nil => rfl
  | cons w words ih => simp [ih]

theorem commands_line (words : List (List Char)) (hne : words ≠ []) (rest : List Token) :
    commands (words.map .word ++ .newline :: rest) = words :: commands rest := by
  rw [commands, List.splitOnP_append_cons_of_forall_mem (by simp) _ (by simp), List.map_cons,
    filterMap_words, List.filter_cons_of_pos (by simpa using hne), ← commands]

theorem commands_last (words : List (List Char)) (hne : words ≠ []) :
    commands (words.map .word) = [words] := by
  rw [commands, List.splitOnP_eq_singleton (by simp), List.map_singleton, filterMap_words,
    List.filter_cons_of_pos (by simpa using hne), List.filter_nil]

end ShellWords
