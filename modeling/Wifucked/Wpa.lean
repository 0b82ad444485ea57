import Wifucked.Lib.Directives

/-!
# The configuration of the station

A network is joined by a `wpa_supplicant` of its own, which reads what to join
from a file. Quotes and backslashes in a name are escaped there, line breaks are
not.
-/

namespace Wifucked.Wpa

open Directives Directives.Reading

def replace (c : Char) (by_ : String) (text : List Char) : List Char :=
  text.flatMap fun d => if d = c then by_.toList else [d]

def escapeWpaString (value : List Char) : List Char :=
  replace '"' "\\\"" (replace '\\' "\\\\" value)

def wpaRunDir : String := "/run/wifucked"

def assign (name : String) (value : List Char) : List Char :=
  name.toList ++ '=' :: '"' :: (escapeWpaString value ++ ['"'])

def ctrlLine : List Char := ("ctrl_interface=" ++ wpaRunDir ++ "/wpa_supplicant").toList

def updateLine : List Char := "update_config=0".toList

def opening : List Char := "network=\x7b".toList

def mgmtLine (protocol : String) : List Char := ("key_mgmt=" ++ protocol).toList

def indent : List Char := ['\n', ' ', ' ', ' ', ' ']

def wpaSupplicantConf (ssid : List Char) (passphrase : Option (List Char)) : List Char :=
  let lines :=
    match passphrase.filter (· ≠ []) with
    | some passphrase => [assign "ssid" ssid, mgmtLine "WPA-PSK", assign "psk" passphrase]
    | none => [assign "ssid" ssid, mgmtLine "NONE"]
  let networkBlock := indent.intercalate lines
  ctrlLine ++ ['\n'] ++ updateLine ++ ['\n'] ++ opening ++ indent ++ networkBlock ++
    ['\n', '\x7d', '\n']

theorem escapeWpaString_eq (value : List Char) : escapeWpaString value = escape value := by
  rw [escapeWpaString, replace, replace, List.flatMap_assoc, escape]
  congr 1
  funext c
  unfold escaped
  by_cases hslash : c = '\\'
  · subst hslash
    rfl
  · by_cases hquote : c = '"'
    · subst hquote
      rfl
    · simp [hslash, hquote]

def fixed : List Entry :=
  [.directive "ctrl_interface".toList (.plain (wpaRunDir ++ "/wpa_supplicant").toList),
    .directive "update_config".toList (.plain ['0'])]

/-- What the file is to say: one network of the given name and passphrase. -/
def joining (ssid : List Char) : Option (List Char) → Conf
  | some passphrase =>
    ⟨fixed, [[.directive "ssid".toList (.quoted ssid),
      .directive "key_mgmt".toList (.plain "WPA-PSK".toList),
      .directive "psk".toList (.quoted passphrase)]]⟩
  | none =>
    ⟨fixed, [[.directive "ssid".toList (.quoted ssid),
      .directive "key_mgmt".toList (.plain "NONE".toList)]]⟩

-- ---------------------------------------------------------------------------
-- Reading it back
-- ---------------------------------------------------------------------------

def secured : Option (List Char) → List Char
  | some passphrase =>
    (indent.tail ++ mgmtLine "WPA-PSK") ++ '\n' ::
      ((indent.tail ++ assign "psk" passphrase) ++ '\n' :: (['\x7d'] ++ '\n' :: []))
  | none => (indent.tail ++ mgmtLine "NONE") ++ '\n' :: (['\x7d'] ++ '\n' :: [])

def inside (ssid : List Char) (passphrase : Option (List Char)) : List Char :=
  (indent.tail ++ assign "ssid" ssid) ++ '\n' :: secured passphrase

theorem wpaSupplicantConf_eq (ssid : List Char) {passphrase : Option (List Char)}
    (h : passphrase ≠ some []) :
    wpaSupplicantConf ssid passphrase =
      ctrlLine ++ '\n' :: (updateLine ++ '\n' :: (opening ++ '\n' :: inside ssid passphrase)) := by
  have hindent : indent = '\n' :: indent.tail := rfl
  unfold wpaSupplicantConf inside secured
  cases passphrase with
  | none =>
    rw [Option.filter_none, hindent]
    simp only [List.intercalate, List.intersperse, List.flatten_cons, List.flatten_nil,
      List.append_assoc, List.cons_append, List.nil_append, List.append_nil, List.tail_cons]
  | some p =>
    have hp : (some p).filter (fun p => decide (p ≠ [])) = some p :=
      Option.filter_some_pos (decide_eq_true fun hp => h (hp ▸ rfl))
    rw [hp, hindent]
    simp only [List.intercalate, List.intersperse, List.flatten_cons, List.flatten_nil,
      List.append_assoc, List.cons_append, List.nil_append, List.append_nil, List.tail_cons]

theorem line_inside {r : Directives.Reading} {text : List Char} (hopen : r.open_ = some entries)
    (htext : text.head?.all fun c => c ≠ ' ' && c ≠ '\t' && c ≠ '\x7d') (hne : text ≠ []) :
    r.line opening (indent.tail ++ text) =
      { r with open_ := some (entries ++ [readEntry text]) } := by
  cases text with
  | nil => exact absurd rfl hne
  | cons c text =>
    simp only [List.head?_cons, Option.all_some, Bool.and_eq_true, decide_eq_true_eq] at htext
    obtain ⟨⟨hspace, htab⟩, hbrace⟩ := htext
    have hindented : indented (indent.tail ++ c :: text) = c :: text := by
      simp [indented, indent, hspace, htab]
    rw [line_within hopen (by simp [hindented]) (by simp [hindented, hbrace]), hindented]

theorem newline_not_mem {name : String} (hname : '\n' ∉ name.toList) (h : '\n' ∉ value) :
    '\n' ∉ indent.tail ++ assign name value := by
  intro hc
  simp only [assign, indent, List.tail_cons, List.cons_append, List.nil_append, List.mem_cons,
    List.mem_append, List.not_mem_nil, or_false, escapeWpaString_eq] at hc
  rcases hc with hc | hc | hc | hc | hc | hc | hc | hc | hc
  · exact absurd hc (by decide)
  · exact absurd hc (by decide)
  · exact absurd hc (by decide)
  · exact absurd hc (by decide)
  · exact hname hc
  · exact absurd hc (by decide)
  · exact absurd hc (by decide)
  · exact h (mem_of_mem_escape hc (by decide))
  · exact absurd hc (by decide)

theorem readEntry_assign {name : String} (hname : '=' ∉ name.toList) (value : List Char) :
    readEntry (assign name value) = .directive name.toList (.quoted value) := by
  rw [assign, escapeWpaString_eq, readEntry_quoted hname]

def entered (entries : List Entry) : Directives.Reading := ⟨fixed, [], some entries⟩

theorem lines_conf (ssid : List Char) {passphrase : Option (List Char)} (h : passphrase ≠ some []) :
    Directives.Reading.start.lines opening (wpaSupplicantConf ssid passphrase) =
      (entered []).lines opening (inside ssid passphrase) := by
  rw [wpaSupplicantConf_eq ssid h, lines_append (by decide),
    lines_append (by decide), lines_append (by decide)]
  congr 1

theorem lines_mgmt {protocol : String} (h : protocol ∈ ["WPA-PSK", "NONE"]) (entries : List Entry)
    (rest : List Char) :
    (entered entries).lines opening ((indent.tail ++ mgmtLine protocol) ++ '\n' :: rest) =
      (entered (entries ++ [.directive "key_mgmt".toList (.plain protocol.toList)])).lines
        opening rest := by
  have hline : '\n' ∉ indent.tail ++ mgmtLine protocol ∧
      (entered entries).line opening (indent.tail ++ mgmtLine protocol) =
        entered (entries ++ [.directive "key_mgmt".toList (.plain protocol.toList)]) := by
    simp only [List.mem_cons, List.not_mem_nil, or_false] at h
    rcases h with rfl | rfl
    · rw [line_inside rfl (by decide) (by decide)]
      exact ⟨by decide, rfl⟩
    · rw [line_inside rfl (by decide) (by decide)]
      exact ⟨by decide, rfl⟩
  rw [lines_append hline.1, hline.2]

structure Named (name : String) : Prop where
  newline : '\n' ∉ name.toList
  equals : '=' ∉ name.toList
  head : name.toList.head?.all fun c => c ≠ ' ' && c ≠ '\t' && c ≠ '\x7d'
  ne_nil : name.toList ≠ []

theorem named_ssid : Named "ssid" := ⟨by decide, by decide, by decide, by decide⟩

theorem named_psk : Named "psk" := ⟨by decide, by decide, by decide, by decide⟩

theorem lines_assign (hname : Named name) (h : '\n' ∉ value) (entries : List Entry)
    (rest : List Char) :
    (entered entries).lines opening ((indent.tail ++ assign name value) ++ '\n' :: rest) =
      (entered (entries ++ [.directive name.toList (.quoted value)])).lines opening rest := by
  have hhead : (assign name value).head? = name.toList.head? := by
    rw [assign, List.head?_append_of_ne_nil _ hname.ne_nil]
  rw [lines_append (newline_not_mem hname.newline h),
    line_inside rfl (by rw [hhead]; exact hname.head) (by simp [assign]),
    readEntry_assign hname.equals]
  rfl

/-- One with a line break is torn, and begins with what is no directive. -/
theorem lines_torn (hname : Named name) (h : '\n' ∈ value) (entries : List Entry)
    (rest : List Char) :
    ∃ line, ((entered entries).lines opening
      ((indent.tail ++ assign name value) ++ '\n' :: rest)).Begins
        (entries ++ [.malformed line]) := by
  obtain ⟨pre, post, rfl, hpre⟩ := List.eq_append_cons_of_mem h
  have hesc : escape (pre ++ '\n' :: post) = escape pre ++ '\n' :: escape post := by
    simp [escape, escaped]
  let torn := name.toList ++ '=' :: '"' :: escape pre
  have htext : (indent.tail ++ assign name (pre ++ '\n' :: post)) ++ '\n' :: rest =
      (indent.tail ++ torn) ++ '\n' :: ((escape post ++ ['"']) ++ '\n' :: rest) := by
    simp [assign, escapeWpaString_eq, hesc, torn]
  have hbreak : '\n' ∉ indent.tail ++ torn := by
    simp only [List.mem_append, List.mem_cons, torn]
    rintro (hc | hc | hc | hc | hc)
    · exact absurd hc (by decide)
    · exact hname.newline hc
    · exact absurd hc (by decide)
    · exact absurd hc (by decide)
    · exact hpre (mem_of_mem_escape hc (by decide))
  have hhead : torn.head? = name.toList.head? := List.head?_append_of_ne_nil _ hname.ne_nil
  refine ⟨torn, ?_⟩
  rw [htext, lines_append hbreak,
    line_inside rfl (by rw [hhead]; exact hname.head) (by simp [torn]), readEntry_open hname.equals]
  exact begins_lines
    ⟨entries ++ [.malformed torn], by simp [Directives.Reading.all, entered, torn], List.prefix_rfl⟩

theorem lines_closing (entries : List Entry) :
    (entered entries).lines opening (['\x7d'] ++ '\n' :: []) = ⟨fixed, [entries], none⟩ := by
  rw [lines_append (by decide), line_closing rfl (by decide), lines_nil]
  rfl

theorem joining_directives {ssid : List Char} {passphrase : Option (List Char)}
    (hblock : block ∈ (joining ssid passphrase).blocks) : .malformed torn ∉ block := by
  cases passphrase <;>
  · obtain rfl := List.mem_singleton.mp hblock
    simp

theorem read_ne_joining {r : Directives.Reading} {entries : List Entry} {ssid : List Char}
    {passphrase : Option (List Char)} (h : r.Begins (entries ++ [.malformed torn])) :
    (if r.open_ = none then some (⟨r.top, r.blocks⟩ : Conf) else none) ≠
      some (joining ssid passphrase) := by
  split
  · rename_i hopen
    intro heq
    obtain ⟨block, hblock, hmem⟩ := h.mem hopen (List.mem_append_right _ List.mem_cons_self)
    have hjoining : block ∈ (joining ssid passphrase).blocks := by rwa [← Option.some.inj heq]
    exact joining_directives hjoining hmem
  · simp

/-- Whatever the network is called, the file says which one to join and nothing
else exactly where no line break is in its name or its passphrase. -/
theorem read_wpaSupplicantConf_iff (ssid : List Char) (passphrase : Option (List Char))
    (h : passphrase ≠ some []) :
    Directives.read opening (wpaSupplicantConf ssid passphrase) = some (joining ssid passphrase) ↔
      '\n' ∉ ssid ∧ ∀ p ∈ passphrase, '\n' ∉ p := by
  unfold Directives.read
  rw [lines_conf ssid h]
  by_cases hssid : '\n' ∈ ssid
  · obtain ⟨torn, htorn⟩ := lines_torn named_ssid hssid [] (secured passphrase)
    exact iff_of_false (read_ne_joining htorn) fun hboth => hboth.1 hssid
  · rw [inside, lines_assign named_ssid hssid]
    cases passphrase with
    | none =>
      rw [secured, lines_mgmt (by decide), lines_closing]
      exact iff_of_true rfl ⟨hssid, fun p hp => by cases hp⟩
    | some p =>
      rw [secured, lines_mgmt (by decide)]
      by_cases hp : '\n' ∈ p
      · obtain ⟨torn, htorn⟩ := lines_torn named_psk hp _ (['\x7d'] ++ '\n' :: [])
        exact iff_of_false (read_ne_joining htorn) fun hboth => hboth.2 p rfl hp
      · rw [lines_assign named_psk hp, lines_closing]
        exact iff_of_true rfl ⟨hssid, fun q hq => Option.some.inj hq ▸ hp⟩

theorem read_quotes :
    Directives.read opening
        (wpaSupplicantConf "a \"b\" \\".toList (some "\\\"c\\\"".toList)) =
      some (joining "a \"b\" \\".toList (some "\\\"c\\\"".toList)) :=
  (read_wpaSupplicantConf_iff "a \"b\" \\".toList (some "\\\"c\\\"".toList) (by decide)).mpr
    (by decide)

def injected : List Char := "x\"\n    disabled=0\n    id_str=\"".toList

theorem read_injected :
    Directives.read opening (wpaSupplicantConf injected none) ≠ some (joining injected none) ∧
      (Directives.read opening (wpaSupplicantConf injected none)).any fun conf =>
        conf.blocks.any fun block => Entry.directive "disabled".toList (.plain ['0']) ∈ block := by
  decide +kernel

end Wifucked.Wpa
