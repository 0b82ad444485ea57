import Wifucked.ConfigFile

/-!
# Everything the configuration file sets

The sections of a configuration are objects whose attributes are assigned by
name, whatever the value. Nothing looks at a value before the loops compute
with it, so what is no section, and what is no number, is found out too late.
-/

namespace Wifucked.Settings

open JsonText (Text Value File text oneOf get?)
open ConfigFile (Raised objectAttributes)

-- ---------------------------------------------------------------------------
-- Objects
-- ---------------------------------------------------------------------------

inductive Class where
  | lanConfig
  | lanOutConfig
  | fabricConfig
  | loopConfig
  | thresholds
  deriving DecidableEq, Repr

def Class.fields : Class → List (String × Value)
  | .lanConfig =>
    [("ssid", .string (text "Stable_wifi")),
      ("critical_ssid", .string (text "Stable_critical")),
      ("besteffort_ssid", .string (text "Stable_besteffort")),
      ("address", .string (text "10.44.0.1")), ("prefix", .int 24),
      ("lan_mode", .string (text "single")), ("wan_uses_wifi", .bool false),
      ("open_on_first_boot", .bool true)]
  | .lanOutConfig =>
    [("enabled", .bool true), ("dhcp_client_timeout_s", .float (text "8.0")),
      ("passive_listen_timeout_s", .float (text "15.0"))]
  | .fabricConfig =>
    [("servers", .array []), ("interface", .string (text "wg0")),
      ("username", .string (text "")), ("password", .string (text ""))]
  | .loopConfig =>
    [("fast_s", .float (text "1.0")), ("medium_s", .float (text "10.0")),
      ("slow_s", .float (text "300.0")), ("wifi_scan_min_interval_s", .float (text "120.0")),
      ("probe_budget_s", .float (text "2.0")), ("probe_timeout_s", .float (text "4.0"))]
  | .thresholds =>
    [("activation_deficit_bps", .int 500000), ("activation_dwell_s", .float (text "120.0")),
      ("recovery_margin_bps", .int 1000000), ("recovery_dwell_s", .float (text "300.0")),
      ("degraded_rtt_ms", .float (text "400.0")), ("degraded_loss_pct", .float (text "5.0")),
      ("liveness_interval_s", .float (text "900.0")), ("liveness_bytes", .int 300),
      ("min_confidence", .float (text "0.25"))]

def Class.names (cls : Class) : List String := cls.fields.map Prod.fst

/-- An object has the slots of its class and no others. -/
structure Object where
  cls : Class
  attrs : List (String × Value)
  slots : attrs.map Prod.fst = cls.names

namespace Object

def new (cls : Class) : Object := ⟨cls, cls.fields, rfl⟩

def attr (o : Object) (name : String) : Option Value := o.attrs.lookup name

def hasattr (o : Object) (key : Text) : Bool :=
  oneOf o.cls.names key || oneOf objectAttributes key

def put (o : Object) (key : Text) (v : Value) : Object where
  cls := o.cls
  attrs := o.attrs.map fun (name, old) => (name, if text name = key then v else old)
  slots := by rw [← o.slots, List.map_map]; rfl

def setattr (o : Object) (key : Text) (v : Value) : Except Raised Object :=
  if oneOf o.cls.names key then .ok (o.put key v)
  else if key = text "__class__" then .error .typeError
  else .error .attributeError

/-- One round of the loop of `_merge`. -/
def assign (target : Object) (field : Text × Value) : Except Raised Object :=
  if target.hasattr field.1 then target.setattr field.1 field.2 else .ok target

def merge (target : Object) : Option Value → Except Raised Object
  | none => .ok target
  | some (.object values) => values.foldlM assign target
  | some _ => .error .attributeError

end Object

-- ---------------------------------------------------------------------------
-- Loading
-- ---------------------------------------------------------------------------

/-- `Thresholds(**block)`: the `TypeError` of a block that is no mapping, or
has other keys, leaves the defaults. -/
def thresholdsOf : Option Value → Object
  | some (.object values) =>
    if values.all fun field => oneOf Class.thresholds.names field.1 then
      { cls := .thresholds
        attrs := Class.thresholds.fields.map fun (name, default) =>
          (name, (get? values (text name)).getD default)
        slots := by rw [List.map_map]; rfl }
    else .new .thresholds
  | _ => .new .thresholds

def Class.key : Class → String
  | .lanConfig => "lan"
  | .lanOutConfig => "lan_out"
  | .fabricConfig => "fabric"
  | .loopConfig => "loops"
  | .thresholds => "thresholds"

structure Config where
  lan : Object
  lanOut : Object
  fabric : Object
  loops : Object
  thresholds : Object
  stateDir : Text
  apiHost : Value
  apiPort : Value

def Config.default : Config where
  lan := .new .lanConfig
  lanOut := .new .lanOutConfig
  fabric := .new .fabricConfig
  loops := .new .loopConfig
  thresholds := .new .thresholds
  stateDir := text "/var/lib/wifucked"
  apiHost := .string (text "10.44.0.1")
  apiPort := .int 8080

def Config.section (c : Config) : Class → Object
  | .lanConfig => c.lan
  | .lanOutConfig => c.lanOut
  | .fabricConfig => c.fabric
  | .loopConfig => c.loops
  | .thresholds => c.thresholds

def stateDirOf : Option Value → Except Raised Text
  | none => .ok Config.default.stateDir
  | some (.string dir) => .ok dir
  | some _ => .error .typeError

def ofPayload : Value → Except Raised Config
  | .object payload => do
    let get (key : String) := get? payload (text key)
    let lan ← Config.default.lan.merge (get "lan")
    let lanOut ← Config.default.lanOut.merge (get "lan_out")
    let fabric ← Config.default.fabric.merge (get "fabric")
    let loops ← Config.default.loops.merge (get "loops")
    let stateDir ← stateDirOf (get "state_dir")
    return {
      lan, lanOut, fabric, loops, stateDir
      thresholds := thresholdsOf (get "thresholds")
      apiHost := (get "api_host").getD Config.default.apiHost
      apiPort := (get "api_port").getD Config.default.apiPort }
  | _ => .error .attributeError

def load (recursionLimit : ℕ) : File → Except Raised Config
  | .absent => .ok .default
  | .unreadable => .ok .default
  | .undecodable _ => .error .unicodeDecodeError
  | .text t =>
    match JsonText.loads recursionLimit t with
    | .ok payload => ofPayload payload
    | .error .decodeError => .ok .default
    | .error .valueError => .error .valueError
    | .error .recursionError => .error .recursionError

-- ---------------------------------------------------------------------------
-- What is assigned
-- ---------------------------------------------------------------------------

theorem lookup_map_field {α β : Type} (f : String → α → β) (fields : List (String × α))
    (name : String) :
    (fields.map fun field => (field.1, f field.1 field.2)).lookup name =
      (fields.lookup name).map (f name) := by
  induction fields with
  | nil => rfl
  | cons field rest ih =>
    rw [List.map_cons, List.lookup_cons, List.lookup_cons, ih]
    by_cases hname : name = field.1
    · simp [hname]
    · simp [beq_false_of_ne hname]

theorem not_oneOf_objectAttributes {cls : Class} {key : Text} (h : oneOf cls.names key = true) :
    oneOf objectAttributes key = false := by
  obtain ⟨name, hname, rfl⟩ := JsonText.oneOf_iff.mp h
  have hplain : ∀ name ∈ cls.names, name ∉ objectAttributes := by
    cases cls <;> decide +kernel
  rw [← Bool.not_eq_true, JsonText.oneOf_text]
  exact hplain name hname

namespace Object

variable {o : Object} {key : Text} {v : Value}

@[simp] theorem put_cls : (o.put key v).cls = o.cls := rfl

theorem put_of_not_oneOf (h : oneOf o.cls.names key = false) : o.put key v = o := by
  have hattrs : (o.put key v).attrs = o.attrs := by
    refine (List.map_congr_left fun field hfield => ?_).trans (List.map_id _)
    have hname : field.1 ∈ o.cls.names := o.slots ▸ List.mem_map_of_mem hfield
    have hne : text field.1 ≠ key := fun he =>
      Bool.false_ne_true (h.symm.trans (JsonText.oneOf_iff.mpr ⟨field.1, hname, he⟩))
    simp [hne]
  cases o
  simpa [put] using hattrs

theorem attr_put (o : Object) (key : Text) (v : Value) (name : String) :
    (o.put key v).attr name =
      (o.attr name).map fun old => if text name = key then v else old :=
  lookup_map_field (fun name old => if text name = key then v else old) o.attrs name

theorem assign_eq_ok {o o' : Object} {field : Text × Value} :
    o.assign field = .ok o' ↔
      oneOf objectAttributes field.1 = false ∧ o' = o.put field.1 field.2 := by
  cases hslot : oneOf o.cls.names field.1 with
  | true =>
    have hplain := not_oneOf_objectAttributes hslot
    simp [assign, hasattr, setattr, hslot, hplain, eq_comm]
  | false =>
    cases hspecial : oneOf objectAttributes field.1 with
    | true =>
      simp only [assign, hasattr, setattr, hslot, hspecial, Bool.false_or, if_true]
      by_cases hclass : field.1 = text "__class__" <;> simp [hclass]
    | false => simp [assign, hasattr, hslot, hspecial, put_of_not_oneOf hslot, eq_comm]

theorem merge_eq_ok {o o' : Object} {values : List (Text × Value)} :
    o.merge (some (.object values)) = .ok o' ↔
      (∀ field ∈ values, oneOf objectAttributes field.1 = false) ∧
        o' = values.foldl (fun o field => o.put field.1 field.2) o :=
  JsonText.foldlM_eq_ok (f := assign) fun _ _ _ => assign_eq_ok

theorem attr_foldl_put (o : Object) (values : List (Text × Value)) {name : String}
    (h : o.attr name = some old) :
    (values.foldl (fun o field => o.put field.1 field.2) o).attr name =
      some ((get? values (text name)).getD old) := by
  induction values using List.reverseRecOn with
  | nil => exact h
  | append_singleton values field ih =>
    rw [List.foldl_append, List.foldl_cons, List.foldl_nil, attr_put, ih, JsonText.get?_concat]
    by_cases hname : text name = field.1
    · simp [hname]
    · simp [hname, Ne.symm hname]

end Object

-- ---------------------------------------------------------------------------
-- What is loaded
-- ---------------------------------------------------------------------------

/-- A section that is merged is absent, or an object of names no other object has. -/
def Mergeable (section? : Option Value) : Prop :=
  ∀ v, section? = some v → ∃ values, v = .object values ∧
    ∀ field ∈ values, oneOf objectAttributes field.1 = false

theorem mergeable_none : Mergeable none := fun v hv => by cases hv

theorem mergeable_object {values : List (Text × Value)} :
    Mergeable (some (.object values)) ↔
      ∀ field ∈ values, oneOf objectAttributes field.1 = false := by
  simp [Mergeable]

theorem not_mergeable {v : Value} (h : ∀ values, v ≠ .object values) : ¬Mergeable (some v) := by
  intro hmergeable
  obtain ⟨values, hv, -⟩ := hmergeable v rfl
  exact h values hv

def given (payload : List (Text × Value)) (cls : Class) (name : String) : Option Value :=
  match get? payload (text cls.key) with
  | some (.object values) =>
    if cls = .thresholds ∧ ¬values.all (fun field => oneOf cls.names field.1) then none
    else get? values (text name)
  | _ => none

/-- A section that is merged has the values given for it, and the defaults else. -/
theorem attr_merge {cls : Class} {payload : List (Text × Value)} {o : Object} {old : Value}
    (hcls : cls ≠ .thresholds) (h : (Object.new cls).merge (get? payload (text cls.key)) = .ok o)
    (hname : (Object.new cls).attr name = some old) :
    o.attr name = some ((given payload cls name).getD old) := by
  cases hsection : get? payload (text cls.key) with
  | none =>
    rw [hsection] at h
    cases h
    simp [given, hsection, hname]
  | some v =>
    rw [hsection] at h
    cases v with
    | object values =>
      obtain ⟨-, rfl⟩ := Object.merge_eq_ok.mp h
      simp [given, hsection, hcls, Object.attr_foldl_put _ values hname]
    | _ => cases h

theorem attr_thresholdsOf {payload : List (Text × Value)} {old : Value}
    (hname : (Object.new .thresholds).attr name = some old) :
    (thresholdsOf (get? payload (text Class.thresholds.key))).attr name =
      some ((given payload .thresholds name).getD old) := by
  cases hsection : get? payload (text Class.thresholds.key) with
  | none => simp [thresholdsOf, given, hsection, hname]
  | some v =>
    cases v with
    | object values =>
      cases hknown : values.all fun field => oneOf Class.thresholds.names field.1 with
      | true =>
        have hmap := lookup_map_field
          (fun name default => (get? values (text name)).getD default) Class.thresholds.fields name
        simp only [thresholdsOf, given, hsection, hknown, if_true, not_true, and_false, if_false]
        rw [Object.attr, hmap]
        exact congrArg (Option.map _) hname
      | false => simp [thresholdsOf, given, hsection, hknown, hname]
    | _ => simp [thresholdsOf, given, hsection, hname]

theorem cls_foldl_put (o : Object) (values : List (Text × Value)) :
    (values.foldl (fun o field => o.put field.1 field.2) o).cls = o.cls := by
  induction values generalizing o with
  | nil => rfl
  | cons field values ih => exact ih (o.put field.1 field.2)

theorem cls_merge {o o' : Object} {section? : Option Value} (h : o.merge section? = .ok o') :
    o'.cls = o.cls := by
  cases section? with
  | none =>
    cases h
    rfl
  | some v =>
    cases v with
    | object values =>
      obtain ⟨-, rfl⟩ := Object.merge_eq_ok.mp h
      exact cls_foldl_put o values
    | _ => cases h

theorem cls_thresholdsOf (block? : Option Value) : (thresholdsOf block?).cls = .thresholds := by
  unfold thresholdsOf
  split
  · split <;> rfl
  · rfl

theorem merge_isOk {o : Object} {section? : Option Value} :
    (∃ o', o.merge section? = .ok o') ↔ Mergeable section? := by
  cases section? with
  | none => exact iff_of_true ⟨o, rfl⟩ mergeable_none
  | some v =>
    cases v with
    | object values => simp [Object.merge_eq_ok, mergeable_object]
    | _ => exact iff_of_false (fun ⟨_, h⟩ => by cases h) (not_mergeable (by simp))

theorem stateDirOf_isOk {dir? : Option Value} :
    (∃ dir, stateDirOf dir? = .ok dir) ↔ ∀ v, dir? = some v → ∃ dir, v = .string dir := by
  cases dir? with
  | none => exact iff_of_true ⟨_, rfl⟩ fun v hv => by cases hv
  | some v => cases v <;> simp [stateDirOf]

/-- What `load` needs of a payload to return. -/
structure Loadable (payload : List (Text × Value)) : Prop where
  sections : ∀ cls : Class, cls ≠ .thresholds → Mergeable (get? payload (text cls.key))
  stateDir : ∀ v, get? payload (text "state_dir") = some v → ∃ dir, v = .string dir

variable {payload : List (Text × Value)} {c : Config}

theorem ofPayload_eq_ok : ofPayload (.object payload) = .ok c ↔
    ∃ lan lanOut fabric loops dir,
      Config.default.lan.merge (get? payload (text Class.lanConfig.key)) = .ok lan ∧
      Config.default.lanOut.merge (get? payload (text Class.lanOutConfig.key)) = .ok lanOut ∧
      Config.default.fabric.merge (get? payload (text Class.fabricConfig.key)) = .ok fabric ∧
      Config.default.loops.merge (get? payload (text Class.loopConfig.key)) = .ok loops ∧
      stateDirOf (get? payload (text "state_dir")) = .ok dir ∧
      ⟨lan, lanOut, fabric, loops, thresholdsOf (get? payload (text Class.thresholds.key)), dir,
        (get? payload (text "api_host")).getD Config.default.apiHost,
        (get? payload (text "api_port")).getD Config.default.apiPort⟩ = c := by
  simp only [ofPayload, JsonText.bind_eq_ok, Class.key]
  constructor
  · rintro ⟨lan, hlan, lanOut, hlanOut, fabric, hfabric, loops, hloops, dir, hdir, hc⟩
    exact ⟨lan, lanOut, fabric, loops, dir, hlan, hlanOut, hfabric, hloops, hdir,
      Except.ok.inj hc⟩
  · rintro ⟨lan, lanOut, fabric, loops, dir, hlan, hlanOut, hfabric, hloops, hdir, hc⟩
    exact ⟨lan, hlan, lanOut, hlanOut, fabric, hfabric, loops, hloops, dir, hdir,
      congrArg Except.ok hc⟩

theorem ofPayload_isOk : (∃ c, ofPayload (.object payload) = .ok c) ↔ Loadable payload := by
  constructor
  · rintro ⟨c, hc⟩
    obtain ⟨lan, lanOut, fabric, loops, dir, hlan, hlanOut, hfabric, hloops, hdir, -⟩ :=
      ofPayload_eq_ok.mp hc
    refine ⟨fun cls hcls => ?_, stateDirOf_isOk.mp ⟨dir, hdir⟩⟩
    cases cls with
    | lanConfig => exact merge_isOk.mp ⟨lan, hlan⟩
    | lanOutConfig => exact merge_isOk.mp ⟨lanOut, hlanOut⟩
    | fabricConfig => exact merge_isOk.mp ⟨fabric, hfabric⟩
    | loopConfig => exact merge_isOk.mp ⟨loops, hloops⟩
    | thresholds => exact absurd rfl hcls
  · rintro ⟨hsections, hdir⟩
    obtain ⟨lan, hlan⟩ := merge_isOk.mpr (hsections .lanConfig (by decide))
    obtain ⟨lanOut, hlanOut⟩ := merge_isOk.mpr (hsections .lanOutConfig (by decide))
    obtain ⟨fabric, hfabric⟩ := merge_isOk.mpr (hsections .fabricConfig (by decide))
    obtain ⟨loops, hloops⟩ := merge_isOk.mpr (hsections .loopConfig (by decide))
    obtain ⟨dir, hdir⟩ := stateDirOf_isOk.mpr hdir
    exact ⟨_, ofPayload_eq_ok.mpr
      ⟨lan, lanOut, fabric, loops, dir, hlan, hlanOut, hfabric, hloops, hdir, rfl⟩⟩

theorem cls_section (h : ofPayload (.object payload) = .ok c) (cls : Class) :
    (c.section cls).cls = cls := by
  obtain ⟨lan, lanOut, fabric, loops, dir, hlan, hlanOut, hfabric, hloops, -, rfl⟩ :=
    ofPayload_eq_ok.mp h
  cases cls with
  | lanConfig => exact cls_merge hlan
  | lanOutConfig => exact cls_merge hlanOut
  | fabricConfig => exact cls_merge hfabric
  | loopConfig => exact cls_merge hloops
  | thresholds => exact cls_thresholdsOf _

theorem attr_section (h : ofPayload (.object payload) = .ok c) {cls : Class} {old : Value}
    (hname : (Object.new cls).attr name = some old) :
    (c.section cls).attr name = some ((given payload cls name).getD old) := by
  obtain ⟨lan, lanOut, fabric, loops, dir, hlan, hlanOut, hfabric, hloops, -, rfl⟩ :=
    ofPayload_eq_ok.mp h
  cases cls with
  | lanConfig => exact attr_merge (by decide) hlan hname
  | lanOutConfig => exact attr_merge (by decide) hlanOut hname
  | fabricConfig => exact attr_merge (by decide) hfabric hname
  | loopConfig => exact attr_merge (by decide) hloops hname
  | thresholds => exact attr_thresholdsOf hname

-- ---------------------------------------------------------------------------
-- What the API is told
-- ---------------------------------------------------------------------------

theorem mergeable_iff {section? : Option Value} :
    ConfigFile.merge section? = .ok () ↔ Mergeable section? := by
  cases section? with
  | none => exact iff_of_true rfl mergeable_none
  | some v =>
    cases v with
    | object values => simp [ConfigFile.merge, mergeable_object]
    | _ => exact iff_of_false (fun h => by cases h) (not_mergeable (by simp))

theorem stateDir_iff {dir? : Option Value} :
    ConfigFile.stateDir dir? = .ok () ↔ ∀ v, dir? = some v → ∃ dir, v = .string dir := by
  cases dir? with
  | none => exact iff_of_true rfl fun v hv => by cases hv
  | some v => cases v <;> simp [ConfigFile.stateDir]

/-- Where the API listens, by the payload. -/
def apiOf (payload : List (Text × Value)) : ConfigFile.Config where
  apiHost := (get? payload (text "api_host")).getD ConfigFile.Config.default.apiHost
  apiPort := (get? payload (text "api_port")).getD ConfigFile.Config.default.apiPort

theorem ofPayload_apiOf (h : ofPayload (.object payload) = .ok c) :
    ⟨c.apiHost, c.apiPort⟩ = apiOf payload := by
  obtain ⟨lan, lanOut, fabric, loops, dir, -, -, -, -, -, rfl⟩ := ofPayload_eq_ok.mp h
  rfl

theorem ofPayload_api_iff {api : ConfigFile.Config} :
    ConfigFile.ofPayload (.object payload) = .ok api ↔ Loadable payload ∧ apiOf payload = api := by
  simp only [ConfigFile.ofPayload, JsonText.bind_eq_ok]
  constructor
  · rintro ⟨_, hlan, _, hlanOut, _, hfabric, _, hloops, _, hdir, hapi⟩
    refine ⟨⟨fun cls hcls => ?_, stateDir_iff.mp hdir⟩, Except.ok.inj hapi⟩
    cases cls with
    | lanConfig => exact mergeable_iff.mp hlan
    | lanOutConfig => exact mergeable_iff.mp hlanOut
    | fabricConfig => exact mergeable_iff.mp hfabric
    | loopConfig => exact mergeable_iff.mp hloops
    | thresholds => exact absurd rfl hcls
  · rintro ⟨⟨hsections, hdir⟩, hapi⟩
    have hmerge (cls : Class) (hcls : cls ≠ .thresholds) := mergeable_iff.mpr (hsections cls hcls)
    exact ⟨(), hmerge .lanConfig (by decide), (), hmerge .lanOutConfig (by decide),
      (), hmerge .fabricConfig (by decide), (), hmerge .loopConfig (by decide),
      (), stateDir_iff.mpr hdir, congrArg Except.ok hapi⟩

theorem ofPayload_api {api : ConfigFile.Config} :
    ConfigFile.ofPayload (.object payload) = .ok api ↔
      ∃ c, ofPayload (.object payload) = .ok c ∧ ⟨c.apiHost, c.apiPort⟩ = api := by
  rw [ofPayload_api_iff, ← ofPayload_isOk]
  constructor
  · rintro ⟨⟨c, hc⟩, rfl⟩
    exact ⟨c, hc, ofPayload_apiOf hc⟩
  · rintro ⟨c, hc, rfl⟩
    exact ⟨⟨c, hc⟩, (ofPayload_apiOf hc).symm⟩

theorem load_api (recursionLimit : ℕ) (file : File) (api : ConfigFile.Config) :
    ConfigFile.load recursionLimit file = .ok api ↔
      ∃ c, load recursionLimit file = .ok c ∧ ⟨c.apiHost, c.apiPort⟩ = api := by
  have hdefault : (Except.ok ConfigFile.Config.default : Except Raised _) = .ok api ↔
      ∃ c, (Except.ok Config.default : Except Raised _) = .ok c ∧ ⟨c.apiHost, c.apiPort⟩ = api := by
    simp [ConfigFile.Config.default, Config.default]
  cases file with
  | absent => exact hdefault
  | unreadable => exact hdefault
  | undecodable _ => simp [ConfigFile.load, load]
  | text t =>
    simp only [ConfigFile.load, load]
    cases JsonText.loads recursionLimit t with
    | ok v =>
      cases v with
      | object payload => exact ofPayload_api
      | _ => simp [ConfigFile.ofPayload, ofPayload]
    | error e =>
      cases e with
      | decodeError => exact hdefault
      | _ => simp

end Wifucked.Settings
