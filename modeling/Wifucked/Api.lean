import Wifucked.Atomics.Loading
import Wifucked.Daemon
import Wifucked.Fabric.Requests
import Wifucked.Radio
import Wifucked.Tunnel.Attach

/-!
# The web API

Who may see and change what the appliance has. A token is made on the device the
first time it is needed, and is asked for at every path but a few that tell little.
A process can be started, and killed, at any time.
-/

namespace Wifucked.Api

open JsonText (Text Value File text)

-- ---------------------------------------------------------------------------
-- The token
-- ---------------------------------------------------------------------------

/-- How far writing the file comes. A process that is killed leaves the first so many
characters. -/
inductive Write where
  | done
  /-- No directory, or no file that can be written. -/
  | refused
  /-- The file is written, and `chmod` raises. -/
  | failed
  | cut (n : ℕ)

/-- A token of `secrets.token_urlsafe`, should one be needed. -/
structure Start where
  fresh : Text
  write : Write

def urlsafe (c : ℕ) : Bool :=
  (48 ≤ c && c ≤ 57) || (65 ≤ c && c ≤ 90) || (97 ≤ c && c ≤ 122) || c = 45 || c = 95

/-- The token of the process, if it gets that far, and what is in the file then. -/
def loadOrCreateApiToken (file : File) (s : Start) : File × Option Text :=
  match existing file with
  | none => (file, none)
  | some (c :: cs) => (file, some (c :: cs))
  | some [] =>
    match s.write with
    | .done => (.text s.fresh, some s.fresh)
    | .refused => (file, none)
    | .failed => (.text s.fresh, none)
    | .cut n => (.text (s.fresh.take n), none)
where
  /-- `none` is an error that nothing catches. -/
  existing : File → Option Text
    | .absent | .unreadable => some []
    | .undecodable _ => none
    | .text t => some (Attach.strip t)

-- ---------------------------------------------------------------------------
-- Requests
-- ---------------------------------------------------------------------------

inductive Method where
  | get
  | head
  | options
  | post
  | other
  deriving DecidableEq, Repr

/-- A route for GET is one for HEAD too. -/
def Method.serves : Method → Method → Bool
  | .get, .head => true
  | allowed, m => allowed = m

structure Request where
  method : Method
  path : String
  /-- The password of the authorization, if it has one. -/
  authorization : Option (Option Text)
  /-- The body, where it is JSON. -/
  body : Option Value

def unauthenticatedPaths : List String :=
  ["/api/health", "/generate_204", "/gen_204", "/hotspot-detect.html", "/ncsi.txt"]

inductive Route where
  | dashboard
  | state
  | decisions
  | health
  | setMode (atomicId : String)
  | bundle
  | captiveProbe
  | asset
  deriving DecidableEq, Repr

def routeOf (path : String) : Option (Route × Method) :=
  if path = "/" then some (.dashboard, .get)
  else if path = "/api/state" then some (.state, .get)
  else if path = "/api/decisions" then some (.decisions, .get)
  else if path = "/api/health" then some (.health, .get)
  else if path = "/api/diagnostics/bundle" then some (.bundle, .get)
  else if path ∈ ["/generate_204", "/gen_204", "/hotspot-detect.html", "/ncsi.txt"] then
    some (.captiveProbe, .get)
  else
    match path.toList.splitOn '/' with
    | [[], ['a', 'p', 'i'], ['a', 't', 'o', 'm', 'i', 'c', 's'], id, ['m', 'o', 'd', 'e']] =>
      if id = [] then none else some (.setMode (String.ofList id), .post)
    | [] :: ['s', 't', 'a', 't', 'i', 'c'] :: (_ :: _) :: _ => some (.asset, .get)
    | _ => none

variable {K : Type} [Field K] [LinearOrder K] [FloorRing K] [HalfPow K]

structure App (K : Type) where
  token : Text
  version : String
  daemon : Daemon K
  radio : Option Radio.RadioState

inductive Response (K : Type) where
  | authenticationRequired
  | raised
  | notFound
  | allow (method : Method)
  | methodNotAllowed
  | health (version : String) (apRunning : Bool) (presentAtomics : ℕ)
  | noContent
  | redirect
  | unknownMode (raw : Value)
  | unknownAtomic
  | atomic (a : Atomic K)
  /-- What is made of everything there is. -/
  | shown (route : Route) (app : App K)

namespace App

def apRunning (app : App K) : Bool := (app.radio.map Radio.RadioState.apRunning).getD false

def requireAuth (app : App K) (r : Request) : Except Fabric.Requests.Raised Bool :=
  if r.path ∈ unauthenticatedPaths then .ok true
  else if app.token = [] then .ok false
  else
    match r.authorization with
    | none => .ok false
    | some password => Fabric.Requests.compareDigest (password.getD []) app.token

def apiSetMode (app : App K) (now : Reading K) (atomicId : String) (body : Option Value) :
    App K × Response K :=
  match body.getD .null with
  | .object fields => assign (JsonText.get? fields (text "mode"))
  | v => if Attach.truthy v then (app, .raised) else assign none
where
  assign (raw : Option Value) : App K × Response K :=
    let raw := raw.getD (.string [])
    match Loading.member? Loading.modes raw with
    | none => (app, .unknownMode raw)
    | some mode =>
      let daemon := app.daemon.setMode now atomicId mode
      match daemon.registry.get? atomicId with
      | none => (app, .unknownAtomic)
      | some a => ({ app with daemon }, .atomic a)

def dispatch (app : App K) (now : Reading K) (r : Request) : App K × Response K :=
  match routeOf r.path with
  | none => (app, .notFound)
  | some (route, method) =>
    if r.method = .options then (app, .allow method)
    else if !method.serves r.method then (app, .methodNotAllowed)
    else
      match route with
      | .health =>
        (app, .health app.version app.apRunning app.daemon.registry.present.length)
      | .captiveProbe =>
        (app, if app.daemon.registry.normalPool = [] then .redirect else .noContent)
      | .setMode atomicId => app.apiSetMode now atomicId r.body
      | route => (app, .shown route app)

def serve (app : App K) (now : Reading K) (r : Request) : App K × Response K :=
  match app.requireAuth r with
  | .error _ => (app, .raised)
  | .ok false => (app, .authenticationRequired)
  | .ok true => app.dispatch now r

end App

-- ---------------------------------------------------------------------------
-- Who has no token
-- ---------------------------------------------------------------------------

structure Glimpse where
  version : String
  apRunning : Bool
  presentAtomics : ℕ
  online : Bool
  deriving DecidableEq, Repr

def App.glimpse (app : App K) : Glimpse :=
  ⟨app.version, app.apRunning, app.daemon.registry.present.length,
    !app.daemon.registry.normalPool.isEmpty⟩

def outsiderSees (g : Glimpse) (r : Request) : Response K :=
  if r.path ∈ unauthenticatedPaths then
    if r.method = .options then .allow .get
    else if !Method.get.serves r.method then .methodNotAllowed
    else if r.path = "/api/health" then .health g.version g.apRunning g.presentAtomics
    else if g.online then .noContent
    else .redirect
  else if r.authorization.all fun password => Fabric.Requests.Text.Ascii (password.getD []) then
    .authenticationRequired
  else .raised

theorem routeOf_open (h : path ∈ unauthenticatedPaths) :
    routeOf path = some (if path = "/api/health" then .health else .captiveProbe, .get) := by
  simp only [unauthenticatedPaths, List.mem_cons, List.not_mem_nil, or_false] at h
  rcases h with rfl | rfl | rfl | rfl | rfl <;> rfl

omit [FloorRing K] [HalfPow K] in
theorem dispatch_open (app : App K) (now : Reading K) {r : Request}
    (h : r.path ∈ unauthenticatedPaths) :
    app.dispatch now r = (app, outsiderSees app.glimpse r) := by
  unfold App.dispatch outsiderSees
  rw [routeOf_open h, if_pos h]
  dsimp only
  split
  · rfl
  split
  · rfl
  by_cases hhealth : r.path = "/api/health"
  · simp [hhealth, App.glimpse]
  · cases hpool : app.daemon.registry.normalPool <;> simp [hhealth, hpool, App.glimpse]

omit [FloorRing K] [HalfPow K] in
/-- Whoever has no token changes nothing, and sees no more than a glimpse. -/
theorem serve_outsider {app : App K} (hascii : Fabric.Requests.Text.Ascii app.token)
    (hne : app.token ≠ []) (now : Reading K) {r : Request}
    (h : r.authorization ≠ some (some app.token)) :
    app.serve now r = (app, outsiderSees app.glimpse r) := by
  by_cases hopen : r.path ∈ unauthenticatedPaths
  · rw [App.serve, App.requireAuth, if_pos hopen]
    exact dispatch_open app now hopen
  rw [App.serve, App.requireAuth, if_neg hopen, if_neg hne, outsiderSees, if_neg hopen]
  cases hauth : r.authorization with
  | none => simp
  | some password =>
    have hwrong : password.getD [] ≠ app.token := by
      rintro heq
      cases password with
      | none => exact hne heq.symm
      | some password => exact h (hauth.trans (congrArg (some <| some ·) heq))
    by_cases hp : Fabric.Requests.Text.Ascii (password.getD [])
    · simp [Fabric.Requests.compareDigest, hp, hascii, hwrong]
    · simp [Fabric.Requests.compareDigest, hp]

-- ---------------------------------------------------------------------------
-- A device over its life
-- ---------------------------------------------------------------------------

inductive Process where
  | down
  /-- The loops run, and the token is not read yet. -/
  | booting
  | serving (token : Text)
  deriving DecidableEq, Repr

structure Life (K : Type) where
  file : File
  process : Process
  version : String
  daemon : Daemon K
  radio : Option Radio.RadioState

def Life.token (l : Life K) : Option Text :=
  match l.process with
  | .serving token => some token
  | _ => none

def Life.app (l : Life K) : Option (App K) :=
  l.token.map fun token => ⟨token, l.version, l.daemon, l.radio⟩

inductive Happening (K : Type) where
  | boot (now : Reading K)
  | load (s : Start)
  /-- The process ends; all that it wrote stays. -/
  | stop
  /-- The loops do something. -/
  | act (e : Event K) (own : Daemon.Event.own e)
  | look (radio : Radio.RadioState)
  | request (now : Reading K) (r : Request)

def step (l : Life K) : Happening K → Life K
  | .boot now =>
    if l.process = .down then
      { l with process := .booting, daemon := l.daemon.restart now, radio := none }
    else l
  | .load s =>
    if l.process = .booting then
      match loadOrCreateApiToken l.file s with
      | (file, some token) => { l with file, process := .serving token }
      | (file, none) => { l with file, process := .down }
    else l
  | .stop => { l with process := .down }
  | .act e _ => if l.process = .down then l else { l with daemon := l.daemon.step e }
  | .look radio => if l.process = .down then l else { l with radio := some radio }
  | .request now r =>
    match l.app with
    | some app => { l with daemon := (app.serve now r).1.daemon }
    | none => l

def Outsider (l : Life K) : Happening K → Prop
  | .request _ r => r.authorization ≠ some l.token
  | _ => False

instance (l : Life K) : (e : Happening K) → Decidable (Outsider l e)
  | .request _ _ => inferInstanceAs (Decidable (_ ≠ _))
  | .boot _ | .load _ | .stop | .act .. | .look _ => .isFalse id

def loads (events : List (Happening K)) : List Start :=
  events.filterMap fun e =>
    match e with
    | .load s => some s
    | _ => none

/-- What `secrets` makes has something in it, and nothing that a file or a header would
change. -/
def Start.Good (s : Start) : Prop := s.fresh ≠ [] ∧ ∀ c ∈ s.fresh, urlsafe c = true

def Uncut (s : Start) : Prop := ∀ n, s.write ≠ .cut n

/-- This is the beginning of a token that was made, and all of it if no cut came. -/
def Made (ss : List Start) (t : Text) : Prop :=
  ∃ s ∈ ss, t <+: s.fresh ∧ ((∀ s ∈ ss, Uncut s) → t = s.fresh)

structure Kept (ss : List Start) (l : Life K) : Prop where
  file : l.file = .absent ∨ ∃ t, l.file = .text t ∧ Made ss t
  token : ∀ token, l.token = some token → l.file = .text token ∧ token ≠ []

theorem plain_of_urlsafe (h : urlsafe c = true) :
    c < 128 ∧ Numerals.isSpace (Char.ofNat c) = false := by
  have hlt : c < 128 := by
    simp only [urlsafe, Bool.or_eq_true, Bool.and_eq_true, decide_eq_true_eq] at h
    omega
  have hall : ∀ c < 128, urlsafe c = true → Numerals.isSpace (Char.ofNat c) = false := by
    decide +kernel
  exact ⟨hlt, hall c hlt h⟩

theorem strip_of_urlsafe (h : ∀ c ∈ t, urlsafe c = true) : Attach.strip t = t := by
  have hdrop : ∀ l : Text, (∀ c ∈ l, urlsafe c = true) →
      l.dropWhile (fun c => Numerals.isSpace (Char.ofNat c)) = l := by
    intro l hl
    cases l with
    | nil => rfl
    | cons c l =>
      rw [List.dropWhile_cons_of_neg]
      simp [(plain_of_urlsafe (hl c List.mem_cons_self)).2]
  rw [Attach.strip, hdrop t h, hdrop t.reverse (fun c hc => h c (List.mem_reverse.mp hc)),
    List.reverse_reverse]

theorem urlsafe_of_made {ss : List Start} (hgood : ∀ s ∈ ss, s.Good) (h : Made ss t) :
    ∀ c ∈ t, urlsafe c = true := by
  obtain ⟨s, hs, hbegins, -⟩ := h
  exact fun c hc => (hgood s hs).2 c (hbegins.subset hc)

theorem load_token (hplain : ∀ c ∈ token, urlsafe c = true) (hne : token ≠ []) (s : Start) :
    loadOrCreateApiToken (.text token) s = (.text token, some token) := by
  obtain ⟨c, cs, rfl⟩ := List.exists_cons_of_ne_nil hne
  simp only [loadOrCreateApiToken, loadOrCreateApiToken.existing, strip_of_urlsafe hplain]

/-- Whatever becomes of the file, the process has what is in it. -/
theorem load_cases {ss : List Start} (hs : s ∈ ss) (hgood : ∀ s ∈ ss, s.Good)
    (h : file = .absent ∨ ∃ t, file = .text t ∧ Made ss t)
    (hload : loadOrCreateApiToken file s = (file', token?)) :
    (file' = .absent ∨ ∃ t, file' = .text t ∧ Made ss t) ∧
      ∀ token, token? = some token → file' = .text token ∧ token ≠ [] := by
  have hempty : loadOrCreateApiToken.existing file = some [] →
      (file' = .absent ∨ ∃ t, file' = .text t ∧ Made ss t) ∧
        ∀ token, token? = some token → file' = .text token ∧ token ≠ [] := by
    intro hexisting
    simp only [loadOrCreateApiToken, hexisting] at hload
    have hfresh : Made ss s.fresh := ⟨s, hs, List.prefix_rfl, fun _ => rfl⟩
    cases hwrite : s.write with
    | done =>
      rw [hwrite, Prod.mk.injEq] at hload
      obtain ⟨rfl, rfl⟩ := hload
      refine ⟨.inr ⟨_, rfl, hfresh⟩, fun token ht => ?_⟩
      obtain rfl := Option.some.inj ht
      exact ⟨rfl, (hgood s hs).1⟩
    | refused =>
      rw [hwrite, Prod.mk.injEq] at hload
      obtain ⟨rfl, rfl⟩ := hload
      exact ⟨h, fun _ ht => by cases ht⟩
    | failed =>
      rw [hwrite, Prod.mk.injEq] at hload
      obtain ⟨rfl, rfl⟩ := hload
      exact ⟨.inr ⟨_, rfl, hfresh⟩, fun _ ht => by cases ht⟩
    | cut n =>
      rw [hwrite, Prod.mk.injEq] at hload
      obtain ⟨rfl, rfl⟩ := hload
      exact ⟨.inr ⟨_, rfl, s, hs, List.take_prefix n _,
        fun huncut => absurd hwrite (huncut s hs n)⟩, fun _ ht => by cases ht⟩
  rcases h with rfl | ⟨t, rfl, hmade⟩
  · exact hempty rfl
  have hplain := urlsafe_of_made hgood hmade
  by_cases hne : t = []
  · exact hempty (by rw [loadOrCreateApiToken.existing, strip_of_urlsafe hplain, hne])
  · rw [load_token hplain hne, Prod.mk.injEq] at hload
    obtain ⟨rfl, rfl⟩ := hload
    refine ⟨.inr ⟨t, rfl, hmade⟩, fun token ht => ?_⟩
    obtain rfl := Option.some.inj ht
    exact ⟨rfl, hne⟩

theorem kept_step {ss : List Start} {l : Life K} {e : Happening K} (he : ∀ s ∈ loads [e], s ∈ ss)
    (hgood : ∀ s ∈ ss, s.Good) (h : Kept ss l) : Kept ss (step l e) := by
  cases e with
  | boot now =>
    simp only [step]
    split
    · exact ⟨h.file, fun _ ht => by cases ht⟩
    · exact h
  | load s =>
    simp only [step]
    split
    · split
      · rename_i file token hload
        obtain ⟨hfile, htoken⟩ := load_cases (he s (by simp [loads])) hgood h.file hload
        exact ⟨hfile, fun t ht => htoken t ht⟩
      · rename_i file hload
        exact ⟨(load_cases (he s (by simp [loads])) hgood h.file hload).1,
          fun _ ht => by cases ht⟩
    · exact h
  | stop => exact ⟨h.file, fun _ ht => by cases ht⟩
  | act e own =>
    simp only [step]
    split
    · exact h
    · exact ⟨h.file, h.token⟩
  | look radio =>
    simp only [step]
    split
    · exact h
    · exact ⟨h.file, h.token⟩
  | request now r =>
    simp only [step]
    split
    · exact ⟨h.file, h.token⟩
    · exact h

omit [Field K] [LinearOrder K] [FloorRing K] [HalfPow K] in
theorem plain_of_kept {ss : List Start} {l : Life K} (hgood : ∀ s ∈ ss, s.Good) (h : Kept ss l)
    (hfile : l.file = .text token) : Made ss token ∧ ∀ c ∈ token, urlsafe c = true := by
  rcases h.file with habsent | ⟨t, htext, hmade⟩
  · cases habsent.symm.trans hfile
  · obtain rfl := File.text.inj (htext.symm.trans hfile)
    exact ⟨hmade, urlsafe_of_made hgood hmade⟩

omit [FloorRing K] [HalfPow K] in
theorem serve_of_kept {ss : List Start} {l : Life K} (hgood : ∀ s ∈ ss, s.Good) (h : Kept ss l)
    {r : Request} (hr : r.authorization ≠ some l.token) {app : App K} (happ : l.app = some app)
    (now : Reading K) : app.serve now r = (app, outsiderSees app.glimpse r) := by
  obtain ⟨token, htoken, rfl⟩ := Option.map_eq_some_iff.mp happ
  obtain ⟨hfile, hne⟩ := h.token token htoken
  refine serve_outsider (fun c hc => ?_) hne now (htoken ▸ hr)
  exact (plain_of_urlsafe ((plain_of_kept hgood h hfile).2 c hc)).1

theorem step_outsider {ss : List Start} {l : Life K} {e : Happening K}
    (hgood : ∀ s ∈ ss, s.Good) (h : Kept ss l) (he : Outsider l e) : step l e = l := by
  cases e with
  | request now r =>
    simp only [step]
    cases happ : l.app with
    | none => rfl
    | some app =>
      have hserve := serve_of_kept hgood h he happ now
      obtain ⟨token, -, rfl⟩ := Option.map_eq_some_iff.mp happ
      simp only [hserve]
  | _ => cases he

theorem token_stays {l : Life K} (hplain : ∀ c ∈ token, urlsafe c = true) (hne : token ≠ [])
    (hfile : l.file = .text token) (htoken : ∀ t, l.token = some t → t = token)
    (later : List (Happening K)) :
    (Runs.exec step l later).file = .text token ∧
      ∀ t, (Runs.exec step l later).token = some t → t = token := by
  refine Runs.exec_keeps (P := fun l : Life K => l.file = .text token ∧
    ∀ t, l.token = some t → t = token) (fun l e _ h => ?_) ⟨hfile, htoken⟩
  cases e with
  | boot now =>
    simp only [step]
    split
    · exact ⟨h.1, fun _ ht => by cases ht⟩
    · exact h
  | load s =>
    simp only [step, h.1, load_token hplain hne]
    split
    · exact ⟨rfl, fun t ht => (Option.some.inj ht).symm⟩
    · exact h
  | stop => exact ⟨h.1, fun _ ht => by cases ht⟩
  | act e own => simp only [step]; split <;> exact h
  | look radio => simp only [step]; split <;> exact h
  | request now r => simp only [step]; split <;> exact h

/-- However processes end, the token of one is the beginning of one that was made, and all
later processes have it. Requests without it might as well not have been made, and
tell no more than a glimpse. -/
theorem guarded_exec {l : Life K} (hfile : l.file = .absent) (hdown : l.process = .down)
    {events : List (Happening K)} (hgood : ∀ s ∈ loads events, s.Good)
    (hlife : Runs.exec step l events = l') :
    (∀ token, l'.token = some token → token ≠ [] ∧ Made (loads events) token ∧
      ∀ later t, (Runs.exec step l' later).token = some t → t = token) ∧
    Runs.exec step l (Runs.purge step Outsider l events) = l' ∧
    ∀ now r app, r.authorization ≠ some l'.token → l'.app = some app →
      app.serve now r = (app, outsiderSees app.glimpse r) := by
  have hloads : ∀ e ∈ events, ∀ s ∈ loads [e], s ∈ loads events := by
    intro e he s hs
    obtain ⟨e', he', hs'⟩ := List.mem_filterMap.mp hs
    obtain rfl := List.mem_singleton.mp he'
    exact List.mem_filterMap.mpr ⟨e', he, hs'⟩
  have hstep : ∀ l : Life K, ∀ e ∈ events, Kept (loads events) l →
      Kept (loads events) (step l e) := fun l e he h => kept_step (hloads e he) hgood h
  have hstart : Kept (loads events) l := ⟨.inl hfile, by simp [Life.token, hdown]⟩
  have hkept : Kept (loads events) l' := hlife ▸ Runs.exec_keeps hstep hstart
  refine ⟨fun token ht => ?_, ?_, fun now r app hr happ => serve_of_kept hgood hkept hr happ now⟩
  · obtain ⟨htext, hne⟩ := hkept.token token ht
    obtain ⟨hmade, hplain⟩ := plain_of_kept hgood hkept htext
    refine ⟨hne, hmade, fun later t ht' => ?_⟩
    exact (token_stays hplain hne htext (fun t hs => Option.some.inj (hs.symm.trans ht)) later).2
      t ht'
  · rw [Runs.exec_purge hstep (fun l e h he => step_outsider hgood h he) hstart, hlife]

-- The process is killed while it writes the first token, and later somebody tries to
-- change a mode.
def device : Life ℚ where
  file := .absent
  process := .down
  version := "0.0.0-dev"
  daemon := Daemon.init hotspot none ⟨0, 0⟩
  radio := none

def evening : List (Happening ℚ) :=
  [.boot ⟨0, 0⟩, .load ⟨text "x7Qa", .cut 2⟩, .boot ⟨1, 1⟩, .load ⟨text "k-_9", .done⟩,
    .request ⟨2, 2⟩ ⟨.post, "/api/atomics/usb:dock/mode", none,
      some (.object [(text "mode", .string (text "unused"))])⟩]

theorem guarded_evening :
    (Runs.exec step device evening).token = some (text "x7") ∧
    (∀ later t, (Runs.exec step (Runs.exec step device evening) later).token = some t →
      t = text "x7") ∧
    Runs.exec step device (Runs.purge step Outsider device evening) =
      Runs.exec step device evening := by
  have htoken : (Runs.exec step device evening).token = some (text "x7") := rfl
  have hgood : ∀ s ∈ loads evening, s.Good := by
    simp [loads, evening, Start.Good, text, urlsafe]
  have h := guarded_exec (l := device) rfl rfl hgood rfl
  exact ⟨htoken, (h.1 _ htoken).2.2, h.2.1⟩

end Wifucked.Api
