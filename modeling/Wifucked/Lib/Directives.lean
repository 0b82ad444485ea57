import Wifucked.Lib.Scan

/-!
# Directives, one on a line

A directive is a name and a value with `=` between them; a value in double
quotes may have any character after a backslash. A block of directives begins at
a line of its own and ends at a brace. A line that is none of these is kept as
what it is, so that nothing of a text goes unnoticed.
-/

namespace Directives

-- ---------------------------------------------------------------------------
-- Quoted values
-- ---------------------------------------------------------------------------

def escaped (c : Char) : List Char := if c = '\\' ∨ c = '"' then ['\\', c] else [c]

def escape (value : List Char) : List Char := value.flatMap escaped

/-- What a text says up to the quote that ends it. -/
def unquote : List Char → Option (List Char)
  | [] => none
  | '"' :: rest => if rest = [] then some [] else none
  | '\\' :: rest =>
    match rest with
    | [] => none
    | c :: rest => (unquote rest).map (c :: ·)
  | c :: rest => (unquote rest).map (c :: ·)

theorem unquote_escaped (c : Char) (rest : List Char) :
    unquote (escaped c ++ rest) = (unquote rest).map (c :: ·) := by
  unfold escaped
  split
  · rfl
  · rename_i hc
    obtain ⟨hslash, hquote⟩ := not_or.mp hc
    rw [List.singleton_append, unquote.eq_def]
    split
    · rename_i heq; cases heq
    · rename_i heq; exact absurd (List.cons.inj heq).1 hquote
    · rename_i heq; exact absurd (List.cons.inj heq).1 hslash
    · rename_i heq
      obtain ⟨rfl, rfl⟩ := List.cons.inj heq
      rfl

theorem unquote_escape_append (value rest : List Char) :
    unquote (escape value ++ rest) = (unquote rest).map (value ++ ·) := by
  induction value with
  | nil => simp [escape]
  | cons c value ih =>
    rw [escape, List.flatMap_cons, List.append_assoc, unquote_escaped, ← escape, ih,
      Option.map_map]
    rfl

theorem unquote_escape (value : List Char) : unquote (escape value ++ ['"']) = some value := by
  rw [unquote_escape_append]
  simp [unquote]

theorem unquote_open (value : List Char) : unquote (escape value) = none := by
  have h := unquote_escape_append value []
  rwa [List.append_nil] at h

-- ---------------------------------------------------------------------------
-- Lines
-- ---------------------------------------------------------------------------

inductive Value where
  | plain (text : List Char)
  | quoted (text : List Char)
  deriving DecidableEq

inductive Entry where
  | directive (name : List Char) (value : Value)
  | malformed (line : List Char)
  deriving DecidableEq

def readValue : List Char → Option Value
  | '"' :: rest => (unquote rest).map .quoted
  | text => some (.plain text)

def readEntry (line : List Char) : Entry :=
  if '=' ∈ line then
    match readValue ((line.dropWhile (· ≠ '=')).drop 1) with
    | some value => .directive (line.takeWhile (· ≠ '=')) value
    | none => .malformed line
  else .malformed line

/-- What has been read, the last block of which is `open_` while it is. -/
structure Reading where
  top : List Entry
  blocks : List (List Entry)
  open_ : Option (List Entry)

namespace Reading

variable (opening : List Char)

def start : Reading := ⟨[], [], none⟩

def indented (line : List Char) : List Char := line.dropWhile fun c => c = ' ' || c = '\t'

def line (r : Reading) (text : List Char) : Reading :=
  let text := indented text
  if text = [] then r
  else
    match r.open_ with
    | none =>
      if text = opening then { r with open_ := some [] }
      else { r with top := r.top ++ [readEntry text] }
    | some entries =>
      if text = ['\x7d'] then { r with blocks := r.blocks ++ [entries], open_ := none }
      else { r with open_ := some (entries ++ [readEntry text]) }

end Reading

structure Conf where
  top : List Entry
  blocks : List (List Entry)
  deriving DecidableEq

def Reading.lines (opening : List Char) (r : Reading) (t : List Char) : Reading :=
  (t.splitOn '\n').foldl (Reading.line opening) r

/-- Every block is closed at the end. -/
def read (opening t : List Char) : Option Conf :=
  let r := Reading.start.lines opening t
  if r.open_ = none then some ⟨r.top, r.blocks⟩ else none

namespace Reading

variable {opening : List Char} {r : Reading}

theorem line_blank (h : indented text = []) : r.line opening text = r := by simp [line, h]

theorem line_top (hopen : r.open_ = none) (hne : indented text ≠ [])
    (h : indented text ≠ opening) :
    r.line opening text = { r with top := r.top ++ [readEntry (indented text)] } := by
  simp [line, hopen, hne, h]

theorem line_opening (hopen : r.open_ = none) (hne : indented text ≠ [])
    (h : indented text = opening) : r.line opening text = { r with open_ := some [] } := by
  subst h
  simp [line, hopen, hne]

theorem line_within (hopen : r.open_ = some entries) (hne : indented text ≠ [])
    (h : indented text ≠ ['\x7d']) :
    r.line opening text = { r with open_ := some (entries ++ [readEntry (indented text)]) } := by
  simp [line, hopen, hne, h]

theorem line_closing (hopen : r.open_ = some entries) (h : indented text = ['\x7d']) :
    r.line opening text = { r with blocks := r.blocks ++ [entries], open_ := none } := by
  simp [line, hopen, h]

def all (r : Reading) : List (List Entry) := r.blocks ++ r.open_.toList

/-- A line leaves the blocks, begins another one or adds to the last one. -/
theorem all_line (opening text : List Char) (r : Reading) :
    (r.line opening text).all = r.all ∨ (r.line opening text).all = r.all ++ [[]] ∨
      ∃ entries entry, r.all = r.blocks ++ [entries] ∧
        (r.line opening text).all = r.blocks ++ [entries ++ [entry]] := by
  by_cases hblank : indented text = []
  · exact .inl (by rw [line_blank hblank])
  · cases hopen : r.open_ with
    | none =>
      by_cases hopening : indented text = opening
      · rw [line_opening hopen hblank hopening]
        exact .inr (.inl (by simp [all, hopen]))
      · rw [line_top hopen hblank hopening]
        exact .inl (by simp [all, hopen])
    | some entries =>
      by_cases hclosing : indented text = ['\x7d']
      · rw [line_closing hopen hclosing]
        exact .inl (by simp [all, hopen])
      · rw [line_within hopen hblank hclosing]
        exact .inr (.inr ⟨entries, readEntry (indented text), by simp [all, hopen], by simp [all]⟩)

def Begins (entries : List Entry) (r : Reading) : Prop :=
  ∃ block ∈ r.all.head?, entries <+: block

theorem begins_line (h : r.Begins entries) : (r.line opening text).Begins entries := by
  obtain ⟨block, hblock, hentries⟩ := h
  rcases all_line opening text r with hall | hall | ⟨last, entry, hlast, hall⟩
  · exact ⟨block, hall ▸ hblock, hentries⟩
  · refine ⟨block, ?_, hentries⟩
    rw [hall, List.head?_append_of_ne_nil _ (by rintro h; rw [h] at hblock; cases hblock)]
    exact hblock
  · rw [hlast] at hblock
    cases hblocks : r.blocks with
    | cons first rest =>
      rw [hblocks] at hblock hall
      exact ⟨block, by simpa [hall] using hblock, hentries⟩
    | nil =>
      rw [hblocks] at hblock hall
      obtain rfl : last = block := by simpa using hblock
      exact ⟨last ++ [entry], by simp [hall], hentries.trans (List.prefix_append _ _)⟩

theorem begins_lines (h : r.Begins entries) : (r.lines opening t).Begins entries := by
  unfold lines
  generalize t.splitOn '\n' = ls
  induction ls generalizing r with
  | nil => exact h
  | cons first ls ih => exact ih (begins_line h)

theorem Begins.mem (h : r.Begins entries) (hopen : r.open_ = none) (he : e ∈ entries) :
    ∃ block ∈ r.blocks, e ∈ block := by
  obtain ⟨block, hblock, hentries⟩ := h
  rw [all, hopen, Option.toList_none, List.append_nil] at hblock
  exact ⟨block, List.mem_of_mem_head? hblock, hentries.subset he⟩

theorem lines_append (h : '\n' ∉ first) (r : Reading) :
    r.lines opening (first ++ '\n' :: rest) = (r.line opening first).lines opening rest := by
  rw [lines, List.splitOn_append_cons_self_of_not_mem h]
  rfl

@[simp] theorem lines_nil : r.lines opening [] = r := by
  simp [lines, List.splitOn_nil, line, indented]

end Reading

-- ---------------------------------------------------------------------------
-- Entries that are written
-- ---------------------------------------------------------------------------

theorem readEntry_append {name : List Char} (h : '=' ∉ name) (value : List Char) :
    readEntry (name ++ '=' :: value) =
      match readValue value with
      | some v => .directive name v
      | none => .malformed (name ++ '=' :: value) := by
  rw [readEntry, if_pos (by simp), Scan.dropWhile_ne_append h, Scan.takeWhile_ne_append h,
    List.drop_one, List.tail_cons]

theorem readEntry_quoted {name : List Char} (h : '=' ∉ name) (value : List Char) :
    readEntry (name ++ '=' :: '"' :: (escape value ++ ['"'])) =
      .directive name (.quoted value) := by
  rw [readEntry_append h, readValue, unquote_escape]
  rfl

theorem readEntry_open {name : List Char} (h : '=' ∉ name) (value : List Char) :
    readEntry (name ++ '=' :: '"' :: escape value) =
      .malformed (name ++ '=' :: '"' :: escape value) := by
  rw [readEntry_append h, readValue, unquote_open]
  rfl

theorem mem_of_mem_escape (h : c ∈ escape value) (hc : c ≠ '\\') : c ∈ value := by
  obtain ⟨d, hd, h⟩ := List.mem_flatMap.mp h
  unfold escaped at h
  split at h
  · rcases List.mem_cons.mp h with rfl | h
    · exact absurd rfl hc
    · exact List.mem_singleton.mp h ▸ hd
  · exact List.mem_singleton.mp h ▸ hd

end Directives
