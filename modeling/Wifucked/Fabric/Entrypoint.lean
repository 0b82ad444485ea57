import Mathlib.Logic.Function.Basic
import Wifucked.Fabric.WireGuard
import Wifucked.Lib.ShellWords

/-!
# How a fabric gets its configuration

The container's entrypoint, the wizard that it starts where something is missing,
and the configuration that the server then loads. What the wizard has on its
standard output goes through a shell, and the prompts of `input` are there too.
-/

namespace Wifucked.Fabric.Entrypoint

-- ---------------------------------------------------------------------------
-- The configuration
-- ---------------------------------------------------------------------------

abbrev Env := String → Option String

def requiredEnvVars : List String := ["FABRIC_ADDRESS", "FABRIC_USERNAME", "FABRIC_PASSWORD"]

def value (env : Env) (name : String) : String := (env name).getD ""

def missing (env : Env) : List String := requiredEnvVars.filter fun name => value env name = ""

def loadConfig (env : Env) : Except String FabricConfig :=
  if missing env = [] then
    .ok ⟨value env "FABRIC_ADDRESS", value env "FABRIC_USERNAME", value env "FABRIC_PASSWORD"⟩
  else .error ("missing required environment variable(s): " ++ ", ".intercalate (missing env))

-- ---------------------------------------------------------------------------
-- The wizard
-- ---------------------------------------------------------------------------

structure Terminal where
  isatty : Bool
  lines : List String

def strip (line : String) : String := .ofList (Numerals.strip line.toList)

def firstPrompt : String := "Public address devices will connect to (host:port): "

/-- What `input` writes for each line that it reads, up to one that is not blank; that
line, and those after it. -/
def askLine (prompt : String) : List String → Option (List Char × String × List String)
  | [] => none
  | line :: lines =>
    if strip line = "" then
      (askLine prompt lines).map fun asked => (prompt.toList ++ asked.1, asked.2)
    else some (prompt.toList, strip line, lines)

/-- `getpass` writes its prompts to the terminal itself. -/
def askPassword : List String → Option String
  | password :: confirm :: lines =>
    if password ≠ "" ∧ password = confirm then some password else askPassword lines
  | _ => none

/-- What was written to the standard output on the way, and what was typed. Where the
lines end before it is done, it raises. -/
def promptForConfig (lines : List String) : Option (List Char × FabricConfig) := do
  let (asked, address, lines) ← askLine firstPrompt lines
  let (asked', username, lines) ← askLine "Admin username: " lines
  let password ← askPassword lines
  return (asked ++ asked', ⟨address, username, password⟩)

def values (config : FabricConfig) : List (String × String) :=
  [("FABRIC_ADDRESS", config.address), ("FABRIC_USERNAME", config.username),
    ("FABRIC_PASSWORD", config.password)]

def exportLine (v : String × String) : List Char :=
  ShellWords.line "export".toList (v.1 ++ "=").toList v.2.toList

def printed (config : FabricConfig) : List Char :=
  (values config).flatMap fun v => exportLine v ++ ['\n']

def main (terminal : Terminal) : Option (List Char) :=
  if terminal.isatty then
    (promptForConfig terminal.lines).map fun prompted => prompted.1 ++ printed prompted.2
  else none

-- ---------------------------------------------------------------------------
-- The shell
-- ---------------------------------------------------------------------------

/-- `$(…)`, which drops what no variable holds and the line feeds at the end. -/
def substituted (out : List Char) : List Char :=
  ((out.filter (· ≠ '\x00')).reverse.dropWhile (· = '\n')).reverse

def isName (name : List Char) : Bool :=
  name.head?.any (fun c => c.isAlpha || c = '_') && name.all fun c => c.isAlphanum || c = '_'

def exportOperand (env : Env) (operand : List Char) : Option Env :=
  let name := operand.takeWhile (· ≠ '=')
  if isName name then
    match operand.dropWhile (· ≠ '=') with
    | _ :: value => some (Function.update env (.ofList name) (some (.ofList value)))
    | [] => some env
  else none

def run (env : Env) : List (List Char) → Option Env
  | command :: operands =>
    if command = "export".toList then operands.foldlM exportOperand env else none
  | [] => some env

inductive Evaluated where
  | done (env : Env)
  | syntaxError
  /-- What this shell does not know. -/
  | unknown

def eval (env : Env) (text : List Char) : Evaluated :=
  match ShellWords.read text with
  | some commands =>
    match commands.foldlM run env with
    | some env => .done env
    | none => .unknown
  | none => if ShellWords.unexpected (.outside none) 0 text then .syntaxError else .unknown

inductive Outcome where
  /-- The server is started. -/
  | exec (env : Env)
  | exit
  /-- A shell that is not interactive ends with a syntax error of `eval`. -/
  | syntaxError
  | unknown

def entrypoint (env : Env) (terminal : Terminal) : Outcome :=
  if missing env = [] then .exec env
  else
    match main terminal with
    | none => .exit
    | some out =>
      match eval env (substituted out) with
      | .done env => .exec env
      | .syntaxError => .syntaxError
      | .unknown => .unknown

-- ---------------------------------------------------------------------------
-- What the shell makes of it
-- ---------------------------------------------------------------------------

def assigned (env : Env) (v : String × String) : Env := Function.update env v.1 (some v.2)

def Variable (name : String) : Prop :=
  isName name.toList = true ∧ ShellWords.Plain (name ++ "=").toList ∧ '=' ∉ name.toList

theorem exportOperand_assignment (h : Variable name) (env : Env) (v : String) :
    exportOperand env ((name ++ "=").toList ++ v.toList) = some (assigned env (name, v)) := by
  obtain ⟨hname, -, hequals⟩ := h
  have hne : ∀ c ∈ name.toList, (decide (c ≠ '=')) = true := by
    intro c hc
    refine decide_eq_true ?_
    rintro rfl
    exact hequals hc
  have happend : (name ++ "=").toList ++ v.toList = name.toList ++ '=' :: v.toList := by simp
  have htake : (name.toList ++ '=' :: v.toList).takeWhile (· ≠ '=') = name.toList := by
    rw [List.takeWhile_append_of_pos hne]
    simp
  have hdrop : (name.toList ++ '=' :: v.toList).dropWhile (· ≠ '=') = '=' :: v.toList := by
    rw [List.dropWhile_append_of_pos hne]
    simp
  unfold exportOperand
  rw [happend]
  simp only [htake, hdrop, hname, if_true, assigned, String.ofList_toList]

theorem scan_exportLine (h : Variable name) (v : String) (rest : List Char) :
    ShellWords.scan (.outside none) (exportLine (name, v) ++ rest) =
      (ShellWords.scan (.outside (some ((name ++ "=").toList ++ v.toList))) rest).map
        ([.word "export".toList] ++ ·) :=
  ShellWords.scan_line ⟨by decide, List.all_eq_true.mp (by decide)⟩ h.2.1 v.toList rest

def words (v : String × String) : List (List Char) :=
  ["export".toList, (v.1 ++ "=").toList ++ v.2.toList]

theorem read_exports {vs : List (String × String)} {last : String × String}
    (h : ∀ v ∈ vs ++ [last], Variable v.1) :
    ∃ tokens, ShellWords.scan (.outside none)
        ((vs.flatMap fun v => exportLine v ++ ['\n']) ++ exportLine last) = some tokens ∧
      ShellWords.commands tokens = (vs ++ [last]).map words := by
  induction vs with
  | nil =>
    have hscan := scan_exportLine (h last (by simp)) last.2 []
    rw [List.append_nil] at hscan
    exact ⟨_, hscan, ShellWords.commands_last (words last) (by simp [words])⟩
  | cons v vs ih =>
    rw [List.cons_append, List.forall_mem_cons] at h
    obtain ⟨tokens, hscan, hcommands⟩ := ih h.2
    refine ⟨(words v).map .word ++ .newline :: tokens, ?_, ?_⟩
    · rw [List.flatMap_cons, List.append_assoc, List.append_assoc, List.singleton_append,
        scan_exportLine h.1, ShellWords.scan_newline, hscan]
      simp [ShellWords.ended, words]
    · rw [ShellWords.commands_line (words v) (by simp [words]), hcommands]
      rfl

theorem run_words (h : Variable v.1) (env : Env) : run env (words v) = some (assigned env v) := by
  have hassign := exportOperand_assignment h env v.2
  simp only [words, run, if_true, List.foldlM_cons, List.foldlM_nil, hassign]
  rfl

theorem eval_exports {vs : List (String × String)} {last : String × String}
    (h : ∀ v ∈ vs ++ [last], Variable v.1) (env : Env) :
    eval env ((vs.flatMap fun v => exportLine v ++ ['\n']) ++ exportLine last) =
      .done ((vs ++ [last]).foldl assigned env) := by
  obtain ⟨tokens, hscan, hcommands⟩ := read_exports h
  have hread : ShellWords.read ((vs.flatMap fun v => exportLine v ++ ['\n']) ++ exportLine last) =
      some ((vs ++ [last]).map words) := by
    rw [ShellWords.read, hscan, Option.map_some, hcommands]
  have hrun : ∀ (l : List (String × String)) (env : Env), (∀ v ∈ l, Variable v.1) →
      (l.map words).foldlM run env = some (l.foldl assigned env) := by
    intro l
    induction l with
    | nil => simp
    | cons v l ih =>
      intro env hl
      rw [List.forall_mem_cons] at hl
      rw [List.map_cons, List.foldlM_cons, run_words hl.1]
      exact ih _ hl.2
  rw [eval, hread]
  simp only [hrun _ _ h]

/-- What was printed is not changed by the substitution but for its last line feed. -/
theorem substituted_append {out : List Char} (hnul : '\x00' ∉ out)
    (hends : out.getLast? ≠ some '\n') : substituted (out ++ ['\n']) = out := by
  have hfilter : (out ++ ['\n']).filter (· ≠ '\x00') = out ++ ['\n'] := by
    refine List.filter_eq_self.mpr fun c hc => decide_eq_true ?_
    rintro rfl
    simp [hnul] at hc
  rw [substituted, hfilter, List.reverse_append, List.reverse_singleton, List.singleton_append,
    List.dropWhile_cons_of_pos (by simp)]
  rw [List.getLast?_eq_head?_reverse] at hends
  cases hrev : out.reverse with
  | nil => exact (List.reverse_eq_nil_iff.mp hrev).symm
  | cons c rest =>
    rw [hrev, List.head?_cons] at hends
    rw [List.dropWhile_cons_of_neg (by simpa using hends), ← hrev, List.reverse_reverse]

-- ---------------------------------------------------------------------------
-- The whole
-- ---------------------------------------------------------------------------

theorem variable_of_mem_values (config : FabricConfig) : ∀ v ∈ values config, Variable v.1 := by
  have hnames : ∀ name ∈ requiredEnvVars, isName name.toList = true ∧
      (name ++ "=").toList.all ShellWords.isSafe = true ∧ '=' ∉ name.toList := by decide
  intro v hv
  have hname : v.1 ∈ requiredEnvVars := by
    have hmem := List.mem_map_of_mem (f := Prod.fst) hv
    simpa [values, requiredEnvVars] using hmem
  obtain ⟨hvalid, hsafe, hequals⟩ := hnames v.1 hname
  exact ⟨hvalid, ⟨by simp, List.all_eq_true.mp hsafe⟩, hequals⟩

def Typable (config : FabricConfig) : Prop := ∀ v ∈ values config, '\x00' ∉ v.2.toList

theorem nul_not_mem_exportLine (hname : Variable v.1) (hvalue : '\x00' ∉ v.2.toList) :
    '\x00' ∉ exportLine v := by
  intro h
  have hsafe := hname.2.1.2 '\x00'
  rcases ShellWords.mem_line h with h | h | h | h | h | h
  · revert h
    decide
  · cases h
  · cases hsafe h
  · exact hvalue h
  · cases h
  · cases h

/-- Each value comes through the shell as it is. -/
theorem eval_printed (h : Typable config) (env : Env) :
    eval env (substituted (printed config)) = .done ((values config).foldl assigned env) := by
  let first : List (String × String) :=
    [("FABRIC_ADDRESS", config.address), ("FABRIC_USERNAME", config.username)]
  let last : String × String := ("FABRIC_PASSWORD", config.password)
  have hvalues : values config = first ++ [last] := rfl
  have hprinted : printed config =
      ((first.flatMap fun v => exportLine v ++ ['\n']) ++ exportLine last) ++ ['\n'] := by
    rw [printed, hvalues, List.flatMap_append, List.flatMap_singleton, List.append_assoc]
  have hvariables := variable_of_mem_values config
  have hline : ∀ v ∈ first ++ [last], '\x00' ∉ exportLine v :=
    fun v hv => nul_not_mem_exportLine (hvariables v hv) (h v hv)
  have hnul : '\x00' ∉ (first.flatMap fun v => exportLine v ++ ['\n']) ++ exportLine last := by
    intro hmem
    rcases List.mem_append.mp hmem with hmem | hmem
    · obtain ⟨v, hv, hmem⟩ := List.mem_flatMap.mp hmem
      rcases List.mem_append.mp hmem with hmem | hmem
      · exact hline v (List.mem_append_left _ hv) hmem
      · cases List.mem_singleton.mp hmem
    · exact hline last (by simp) hmem
  have hends : ((first.flatMap fun v => exportLine v ++ ['\n']) ++ exportLine last).getLast? ≠
      some '\n' := by
    rw [List.getLast?_append_of_ne_nil _ (by simp [exportLine, ShellWords.line])]
    exact ShellWords.line_ends _ _ _
  rw [hvalues] at hvariables
  rw [hprinted, substituted_append hnul hends, eval_exports hvariables, ← hvalues]

theorem mem_strip {line : String} (h : c ∈ (strip line).toList) : c ∈ line.toList := by
  rw [strip, String.toList_ofList, Numerals.strip, List.mem_reverse] at h
  have hmem := List.mem_reverse.mp ((List.dropWhile_suffix _).mem h)
  exact (List.dropWhile_suffix _).mem hmem

theorem of_askLine {prompt : String} {lines rest : List String}
    (h : askLine prompt lines = some (asked, typed, rest)) :
    typed ≠ "" ∧ (∃ line ∈ lines, typed = strip line) ∧ (∀ line ∈ rest, line ∈ lines) ∧
      ∃ again, asked = prompt.toList ++ again := by
  induction lines generalizing asked with
  | nil => cases h
  | cons line lines ih =>
    rw [askLine] at h
    split at h
    · obtain ⟨⟨asked', typed', rest'⟩, hasked, heq⟩ := Option.map_eq_some_iff.mp h
      cases heq
      obtain ⟨hne, ⟨l, hl, htyped⟩, hrest, -⟩ := ih hasked
      exact ⟨hne, ⟨l, List.mem_cons_of_mem _ hl, htyped⟩,
        fun l hl => List.mem_cons_of_mem _ (hrest l hl), asked', rfl⟩
    · rename_i hne
      cases h
      exact ⟨hne, ⟨line, List.mem_cons_self, rfl⟩, fun l hl => List.mem_cons_of_mem _ hl, [],
        (List.append_nil _).symm⟩

theorem of_askPassword {lines : List String} (h : askPassword lines = some password) :
    password ≠ "" ∧ password ∈ lines := by
  fun_induction askPassword lines with
  | case1 password' confirm lines hsame =>
    obtain rfl := Option.some.inj h
    exact ⟨hsame.1, List.mem_cons_self⟩
  | case2 password' confirm lines _ ih =>
    obtain ⟨hne, hmem⟩ := ih h
    exact ⟨hne, List.mem_cons_of_mem _ (List.mem_cons_of_mem _ hmem)⟩
  | case3 => cases h

theorem of_promptForConfig {lines : List String}
    (h : promptForConfig lines = some (asked, config)) :
    (∀ v ∈ values config, v.2 ≠ "") ∧
      ((∀ line ∈ lines, '\x00' ∉ line.toList) → Typable config) ∧
      ∃ rest, asked = firstPrompt.toList ++ rest := by
  obtain ⟨⟨asked₁, address, lines₁⟩, haddress, h⟩ := Option.bind_eq_some_iff.mp h
  obtain ⟨⟨asked₂, username, lines₂⟩, husername, h⟩ := Option.bind_eq_some_iff.mp h
  obtain ⟨password, hpassword, h⟩ := Option.bind_eq_some_iff.mp h
  cases h
  obtain ⟨hne₁, ⟨line₁, hmem₁, rfl⟩, hrest₁, again, rfl⟩ := of_askLine haddress
  obtain ⟨hne₂, ⟨line₂, hmem₂, rfl⟩, hrest₂, -⟩ := of_askLine husername
  obtain ⟨hne₃, hmem₃⟩ := of_askPassword hpassword
  refine ⟨?_, fun hnul => ?_, again ++ asked₂, List.append_assoc _ _ _⟩
  · simp [values, hne₁, hne₂, hne₃]
  · simp only [Typable, values, List.forall_mem_cons, List.not_mem_nil, false_implies,
      implies_true, and_true]
    exact ⟨fun h => hnul _ hmem₁ (mem_strip h), fun h => hnul _ (hrest₁ _ hmem₂) (mem_strip h),
      hnul _ (hrest₁ _ (hrest₂ _ hmem₃))⟩

theorem value_assigned (env : Env) (config : FabricConfig) :
    let env' := (values config).foldl assigned env
    (∀ v ∈ values config, value env' v.1 = v.2) ∧
      ∀ name, name ∉ requiredEnvVars → env' name = env name := by
  refine ⟨?_, fun name hname => ?_⟩
  · simp [values, assigned, value, Function.update_apply]
  · simp only [requiredEnvVars, List.mem_cons, List.not_mem_nil, or_false, not_or] at hname
    simp [values, assigned, hname]

theorem loadConfig_assigned (env : Env) (hne : ∀ v ∈ values config, v.2 ≠ "") :
    loadConfig ((values config).foldl assigned env) = .ok config := by
  have hvalues := (value_assigned env config).1
  generalize (values config).foldl assigned env = after at hvalues ⊢
  simp only [values, List.forall_mem_cons, List.not_mem_nil, false_implies, implies_true,
    and_true] at hvalues hne
  obtain ⟨haddress, husername, hpassword⟩ := hvalues
  have hmissing : missing after = [] := by
    simp [missing, requiredEnvVars, haddress, husername, hpassword, hne]
  rw [loadConfig, if_pos hmissing, haddress, husername, hpassword]

theorem substituted_prefix (front : List Char) (hnul : '\x00' ∉ front)
    (hends : front.reverse.dropWhile (· = '\n') = front.reverse) (rest : List Char) :
    ∃ rest', substituted (front ++ rest) = front ++ rest' := by
  have hfilter : front.filter (· ≠ '\x00') = front := by
    refine List.filter_eq_self.mpr fun c hc => decide_eq_true ?_
    rintro rfl
    exact hnul hc
  rw [substituted, List.filter_append, hfilter, List.reverse_append, List.dropWhile_append, hends]
  split
  · exact ⟨[], by simp⟩
  · exact ⟨_, by rw [List.reverse_append, List.reverse_reverse]⟩

theorem eval_prompted (env : Env) (rest : List Char) :
    eval env (firstPrompt.toList ++ rest) = .syntaxError := by
  have hread : ShellWords.read (firstPrompt.toList ++ rest) = none := rfl
  have hunexpected :
      ShellWords.unexpected (.outside none) 0 (firstPrompt.toList ++ rest) = true := rfl
  simp only [eval, hread, hunexpected, if_true]

/-- What the container's start comes to. -/
structure Configured (env : Env) (terminal : Terminal) : Prop where
  /-- The server starts only with what was there, if all of it was. -/
  exec : ∀ env', entrypoint env terminal = .exec env' ↔ missing env = [] ∧ env' = env
  loads : missing env = [] → loadConfig env = .ok
    ⟨value env "FABRIC_ADDRESS", value env "FABRIC_USERNAME", value env "FABRIC_PASSWORD"⟩
  exit : entrypoint env terminal = .exit ↔ missing env ≠ [] ∧
    (terminal.isatty = false ∨ promptForConfig terminal.lines = none)
  /-- The prompts stand before the lines that are to be evaluated. -/
  syntaxError : entrypoint env terminal = .syntaxError ↔ missing env ≠ [] ∧
    terminal.isatty = true ∧ promptForConfig terminal.lines ≠ none
  /-- The lines by themselves would set what was typed, and nothing else. -/
  lines : ∀ asked config, promptForConfig terminal.lines = some (asked, config) →
    ∃ env', eval env (substituted (printed config)) = .done env' ∧
      loadConfig env' = .ok config ∧ ∀ name, name ∉ requiredEnvVars → env' name = env name

theorem entrypoint_configured (env : Env) {terminal : Terminal}
    (hnul : ∀ line ∈ terminal.lines, '\x00' ∉ line.toList) : Configured env terminal := by
  have hloads : missing env = [] → loadConfig env = .ok
      ⟨value env "FABRIC_ADDRESS", value env "FABRIC_USERNAME", value env "FABRIC_PASSWORD"⟩ :=
    fun hmissing => if_pos hmissing
  have hlines : ∀ asked config, promptForConfig terminal.lines = some (asked, config) →
      ∃ env', eval env (substituted (printed config)) = .done env' ∧
        loadConfig env' = .ok config ∧ ∀ name, name ∉ requiredEnvVars → env' name = env name := by
    intro asked config hprompt
    obtain ⟨hne, htypable, -⟩ := of_promptForConfig hprompt
    exact ⟨_, eval_printed (htypable hnul) env, loadConfig_assigned env hne,
      (value_assigned env config).2⟩
  by_cases hmissing : missing env = []
  · have hentry : entrypoint env terminal = .exec env := if_pos hmissing
    refine ⟨fun env' => ?_, hloads, by simp [hentry, hmissing], by simp [hentry, hmissing], hlines⟩
    simp [hentry, hmissing, eq_comm]
  · by_cases htty : terminal.isatty = true
    · cases hprompt : promptForConfig terminal.lines with
      | none =>
        have hentry : entrypoint env terminal = .exit := by
          simp [entrypoint, hmissing, main, hprompt]
        refine ⟨by simp [hentry, hmissing], hloads, by simp [hentry, hmissing, hprompt],
          by simp [hentry, hprompt], hlines⟩
      | some prompted =>
        obtain ⟨asked, config⟩ := prompted
        obtain ⟨-, -, rest, rfl⟩ := of_promptForConfig hprompt
        obtain ⟨rest', hsubstituted⟩ := substituted_prefix firstPrompt.toList
          (by decide) (by decide) (rest ++ printed config)
        have hentry : entrypoint env terminal = .syntaxError := by
          simp only [entrypoint, hmissing, if_false, main, htty, if_true, hprompt, Option.map_some,
            List.append_assoc, hsubstituted, eval_prompted]
        exact ⟨by simp [hentry, hmissing], hloads, by simp [hentry, htty, hprompt],
          by simp [hentry, hmissing, htty, hprompt], hlines⟩
    · have hentry : entrypoint env terminal = .exit := by
        simp [entrypoint, hmissing, main, htty]
      refine ⟨by simp [hentry, hmissing], hloads, by simp [hentry, hmissing, htty],
        by simp [hentry, htty], hlines⟩

/-- A blank line, a password that is not confirmed, and one that a shell would change. -/
theorem entrypoint_evening :
    Configured (fun _ => none) ⟨true, ["  ", " fabric.example:51820", "admin", "secret", "sceret",
      "it's \"$HOME\"; rm *", "it's \"$HOME\"; rm *"]⟩ :=
  entrypoint_configured _ (by decide)

example : entrypoint (fun _ => none) ⟨true, ["fabric", " admin", "it's $1", "it's $1"]⟩ =
    .syntaxError := by rfl

end Wifucked.Fabric.Entrypoint
