import Mathlib.Algebra.Order.Ring.Rat
import Wifucked.Atomics.Loading
import Wifucked.Atomics.Registry
import Wifucked.Lib.JsonWriter

/-!
# The text of the state file

What `persist` writes, as a text, and what `_load` makes of that text. A float
is written as `repr` gives it. A new process comes to know what the abstract
registry remembers across a restart, with the fields that `_load` does not check
as the values that were written.
-/

namespace Wifucked

open JsonText (Text Value Literal Fits named text)

def Kind.str : Kind → String
  | .wifi => "wifi"
  | .usbTether => "usb_tether"
  | .usbEthernet => "usb_ethernet"
  | .ethernet => "ethernet"
  | .cellular => "cellular"

def Mode.str : Mode → String
  | .normal => "normal"
  | .backup => "backup"
  | .unused => "unused"

def PortRole.str : PortRole → String
  | .wan => "wan"
  | .lanOut => "lan_out"

namespace Saved

variable {K : Type} (repr : K → Text)

-- ---------------------------------------------------------------------------
-- What is written
-- ---------------------------------------------------------------------------

def string (s : String) : Value := .string (text s)

def float (x : K) : Value := .float (repr x)

def floatOrNull : Option K → Value
  | none => .null
  | some x => float repr x

def capacityOf (c : StoredCapacity K) : Value :=
  named [("down_bps", .int c.downBps), ("up_bps", .int c.upBps),
    ("confidence", float repr c.confidence), ("measured_age_s", floatOrNull repr c.measuredAgeS)]

def costOf (c : Cost K) : Value :=
  named [("metered", .bool c.metered), ("consumed_bytes", .int c.consumedBytes),
    ("liveness_bytes", .int c.livenessBytes), ("activations", .int c.activations),
    ("active_seconds", float repr c.activeSeconds)]

def attributesOf (attributes : List (String × String)) : Value :=
  named (attributes.map fun a => (a.1, string a.2))

def entryOf (e : StoredAtomic K) : Value :=
  named [("kind", string e.kind.str), ("label", string e.label), ("mode", string e.mode.str),
    ("role", string e.role.str), ("ever_connected", .bool e.everConnected),
    ("capacity", capacityOf repr e.capacity), ("cost", costOf repr e.cost),
    ("attributes", attributesOf e.attributes)]

def payload (file : StateFile K) : Value :=
  named [("version", .int 1), ("persisted_at_wall", float repr file.persistedAtWall),
    ("atomics", named (file.atomics.values.map fun e => (e.id, entryOf repr e)))]

/-- The text that `persist` writes, or the `ValueError` of a number that is too long. -/
def persist [Ring K] [LinearOrder K] (reg : Registry K) (now wall : K) :
    Except JsonText.Raised Text :=
  JsonText.dumps (JsonText.indented 2) (payload repr (reg.persist now wall))

-- ---------------------------------------------------------------------------
-- What is loaded
-- ---------------------------------------------------------------------------

def restoredCapacity (c : Capacity K) : Loading.Capacity K where
  downBps := .int c.downBps
  upBps := .int c.upBps
  confidence := float repr c.confidence
  measuredAt := c.measuredAt

def restoredCost (c : Cost K) : Loading.Cost where
  metered := .bool c.metered
  consumedBytes := .int c.consumedBytes
  livenessBytes := .int c.livenessBytes
  activations := .int c.activations
  activeSeconds := float repr c.activeSeconds

def restored (a : Atomic K) : Loading.Restored K where
  id := text a.id
  kind := a.kind
  label := string a.label
  mode := a.mode
  role := a.role
  health := a.health
  everConnected := .bool a.everConnected
  capacity := restoredCapacity repr a.capacity
  cost := restoredCost repr a.cost
  attributes := attributesOf a.attributes

def floatsOf (file : StateFile K) : List K :=
  file.persistedAtWall :: file.atomics.values.flatMap fun e =>
    e.capacity.confidence :: e.cost.activeSeconds :: e.capacity.measuredAgeS.toList

section

variable [Ring K] [LinearOrder K]

def exactFloats (read : Text → K) : Loading.Floats K where
  ofLiteral := read
  ofBool b := if b then 1 else 0
  ofInt i := some i
  add x y := x + y
  sub x y := x - y
  max x y := max x y

end

/-- `repr` writes a literal of this float, which is read as the same float. -/
structure Writes (read : Text → K) (repr : K → Text) (x : K) : Prop where
  literal : Literal (repr x)
  read : read (repr x) = x

-- ---------------------------------------------------------------------------
-- The text is read back
-- ---------------------------------------------------------------------------

@[simp] theorem joined_string (s : String) : (string s).joined = string s := by
  simp [string, Value.joined]

@[simp] theorem joined_float (x : K) : (float repr x).joined = float repr x := by
  simp [float, Value.joined]

@[simp] theorem joined_floatOrNull (x : Option K) :
    (floatOrNull repr x).joined = floatOrNull repr x := by
  cases x <;> simp [floatOrNull, Value.joined]

theorem joined_payload (file : StateFile K) : (payload repr file).joined = payload repr file := by
  simp [payload, entryOf, capacityOf, costOf, attributesOf, Value.joined, Function.comp_def]

variable {repr}

theorem fits_floatOrNull {x : Option K} (h : ∀ y ∈ x, Literal (repr y)) (room : ℕ) :
    Fits room (floatOrNull repr x) := by
  cases x with
  | none => simp [floatOrNull, Fits]
  | some y =>
    rw [floatOrNull, float, Fits]
    exact h y rfl

theorem fits_attributesOf (attributes : List (String × String)) :
    Fits 1 (attributesOf attributes) := by
  simp only [attributesOf, JsonText.fits_named, List.forall_mem_map]
  exact ⟨by omega, fun a _ => by rw [string, Fits]; exact JsonText.plain_text _⟩

theorem fits_entryOf {e : StoredAtomic K} (hconfidence : Literal (repr e.capacity.confidence))
    (hseconds : Literal (repr e.cost.activeSeconds))
    (hage : ∀ age ∈ e.capacity.measuredAgeS, Literal (repr age))
    (hshort : (entryOf repr e).ints.all JsonText.short = true) : Fits 2 (entryOf repr e) := by
  simp [entryOf, capacityOf, costOf, string, float, Value.ints, Fits, JsonText.plain_text]
    at hshort ⊢
  obtain ⟨hdown, hup, -, hconsumed, hliveness, hactivations, -⟩ := hshort
  exact ⟨⟨hdown, hup, hconfidence, fits_floatOrNull hage 0⟩,
    ⟨hconsumed, hliveness, hactivations, hseconds⟩, fits_attributesOf _⟩

theorem fits_payload {file : StateFile K} (hfloats : ∀ x ∈ floatsOf file, Literal (repr x))
    (hshort : (payload repr file).ints.all JsonText.short = true) :
    Fits 4 (payload repr file) := by
  simp [payload, float, Value.ints, Fits, floatsOf] at hfloats hshort ⊢
  obtain ⟨hwall, hatomics⟩ := hfloats
  refine ⟨hshort.1, hwall, fun e he => fits_entryOf ?_ ?_ ?_
    (List.all_eq_true.mpr (hshort.2 e he))⟩
  · exact hatomics _ e he (.inl rfl)
  · exact hatomics _ e he (.inr (.inl rfl))
  · exact fun age hage => hatomics age e he (.inr (.inr hage))

theorem member_kinds (kind : Kind) : Loading.member Loading.kinds (string kind.str) = .ok kind := by
  cases kind <;> rfl

theorem member_modes (mode : Mode) : Loading.member Loading.modes (string mode.str) = .ok mode := by
  cases mode <;> rfl

theorem member_roles (role : PortRole) :
    Loading.member Loading.roles (string role.str) = .ok role := by
  cases role <;> rfl

theorem field_named (fields : List (String × Value)) (name : String) :
    Loading.field (fields.map fun f => (text f.1, f.2)) name = fields.reverse.lookup name :=
  JsonText.get?_named fields name

theorem costOf_costOf (c : Cost K) :
    Loading.costOf (costOf repr c) = .ok (restoredCost repr c) := by
  simp only [costOf, named, Loading.costOf]
  rw [if_pos (by simp [Loading.costNames])]
  simp only [Loading.ofFields, field_named]
  rfl

theorem nodup_text_ids (file : StateFile K) :
    (file.atomics.values.map fun e => text e.id).Nodup := by
  have h := file.atomics.nodup.map JsonText.text_injective
  rwa [List.map_map] at h

theorem items_atomics (file : StateFile K) :
    Loading.items (file.atomics.values.map fun e => (text e.id, entryOf repr e)) =
      file.atomics.values.map fun e => (text e.id, entryOf repr e) := by
  refine Keyed.values_ofList ?_
  rw [List.map_map]
  exact nodup_text_ids file

section

variable [Ring K] [LinearOrder K] {read : Text → K}

theorem measuredAt_floatOrNull {env : Loading.Env K} (henv : env.floats = exactFloats read)
    (elapsed : K) {age : Option K} (hage : ∀ x ∈ age, read (repr x) = x) :
    Loading.measuredAt env elapsed (some (floatOrNull repr age)) =
      .ok (age.map fun x => env.now - (x + elapsed)) := by
  cases age with
  | none => rfl
  | some x =>
    simp only [floatOrNull, float, Loading.measuredAt, Loading.operand, henv, exactFloats,
      hage x rfl, Option.map_some]
    rfl

theorem reconstructCapacity_capacityOf {env : Loading.Env K}
    (henv : env.floats = exactFloats read) (elapsed : K) {c : StoredCapacity K}
    (hage : ∀ age ∈ c.measuredAgeS, read (repr age) = age) :
    Loading.reconstructCapacity env elapsed (capacityOf repr c) =
      .ok (restoredCapacity repr (Registry.reconstructCapacity c elapsed env.now)) := by
  simp only [capacityOf, named, Loading.reconstructCapacity, field_named]
  have hmeasured : ([("down_bps", Value.int c.downBps), ("up_bps", .int c.upBps),
      ("confidence", float repr c.confidence),
      ("measured_age_s", floatOrNull repr c.measuredAgeS)].reverse.lookup "measured_age_s") =
      some (floatOrNull repr c.measuredAgeS) := rfl
  rw [hmeasured, measuredAt_floatOrNull henv elapsed hage]
  rfl

theorem restore_entryOf {env : Loading.Env K} (henv : env.floats = exactFloats read)
    (elapsed : K) {e : StoredAtomic K}
    (hage : ∀ age ∈ e.capacity.measuredAgeS, read (repr age) = age) :
    Loading.restore env elapsed (text e.id) (entryOf repr e) =
      .ok (restored repr (Registry.restore elapsed env.now e)) := by
  simp only [entryOf, named, Loading.restore, Loading.kindOf, field_named]
  simp only [List.reverse_cons, List.reverse_nil, List.nil_append, List.cons_append,
    List.lookup_cons, String.reduceBEq, Option.getD_some, member_kinds, member_modes, member_roles,
    reconstructCapacity_capacityOf henv elapsed hage, costOf_costOf]
  rfl

theorem loadEntries_map {env : Loading.Env K} (henv : env.floats = exactFloats read) (elapsed : K)
    {entries : List (StoredAtomic K)}
    (hage : ∀ e ∈ entries, ∀ age ∈ e.capacity.measuredAgeS, read (repr age) = age)
    (reg : Loading.Registry K) :
    Loading.loadEntries env elapsed reg (entries.map fun e => (text e.id, entryOf repr e)) =
      .ok (reg.putAll
        (entries.map fun e => restored repr (Registry.restore elapsed env.now e))) := by
  induction entries generalizing reg with
  | nil => rfl
  | cons e entries ih =>
    rw [List.forall_mem_cons] at hage
    have he : Loading.tryRestore env elapsed (text e.id, entryOf repr e) =
        .ok (some (restored repr (Registry.restore elapsed env.now e))) := by
      rw [Loading.tryRestore, restore_entryOf henv elapsed hage.1]
    rw [List.map_cons, Loading.loadEntries, he]
    exact ih hage.2 _

theorem elapsedSincePersist_payload {env : Loading.Env K} (henv : env.floats = exactFloats read)
    (hzero : read (text "0.0") = 0) {file : StateFile K} (fields : List (String × Value))
    (hfield : fields.reverse.lookup "persisted_at_wall" = some (float repr file.persistedAtWall))
    (hwall : read (repr file.persistedAtWall) = file.persistedAtWall) :
    Loading.elapsedSincePersist env (fields.map fun f => (text f.1, f.2)) =
      .ok (max 0 (env.wall - file.persistedAtWall)) := by
  rw [Loading.elapsedSincePersist, field_named, hfield]
  simp only [float, Option.filter, Loading.isNumeric, if_true, Loading.operand, henv, exactFloats,
    hwall, hzero]
  rfl

theorem loadPayload_payload {env : Loading.Env K} (henv : env.floats = exactFloats read)
    (hzero : read (text "0.0") = 0) {file : StateFile K}
    (hread : ∀ x ∈ floatsOf file, read (repr x) = x) :
    ∃ loaded, Loading.loadPayload env (payload repr file) = .ok loaded ∧
      loaded.values = (Registry.load file env.now env.wall).values.map (restored repr) := by
  have hwall : read (repr file.persistedAtWall) = file.persistedAtWall :=
    hread _ (by simp [floatsOf])
  have helapsed := elapsedSincePersist_payload henv hzero
    [("version", .int 1), ("persisted_at_wall", float repr file.persistedAtWall),
      ("atomics", named (file.atomics.values.map fun e => (e.id, entryOf repr e)))] rfl hwall
  have hage : ∀ e ∈ file.atomics.values, ∀ age ∈ e.capacity.measuredAgeS,
      read (repr age) = age := by
    intro e he age hage
    refine hread age (List.mem_cons_of_mem _ (List.mem_flatMap.mpr ⟨e, he, ?_⟩))
    simp [Option.mem_def.mp hage]
  have hentries := loadEntries_map henv (max 0 (env.wall - file.persistedAtWall)) hage .empty
  have hload : Loading.loadPayload env (payload repr file) = .ok (Keyed.ofList
      (file.atomics.values.map fun e =>
        restored repr (Registry.restore (max 0 (env.wall - file.persistedAtWall)) env.now e))) := by
    rw [payload, named, Loading.loadPayload, helapsed]
    simp only [field_named, List.reverse_cons, List.reverse_nil, List.nil_append,
      List.cons_append, List.lookup_cons, String.reduceBEq, Option.getD_some, named,
      List.map_map, Function.comp_def, items_atomics]
    exact hentries
  refine ⟨_, hload, ?_⟩
  rw [Keyed.values_ofList]
  · simp [Registry.load, Keyed.map, Function.comp_def]
  · rw [List.map_map]
    exact nodup_text_ids file

/-- What `persist` wrote a new process reads back: the connections that are
remembered, in their order, each with what is remembered of it. -/
theorem load_persist {env : Loading.Env K} (henv : env.floats = exactFloats read)
    (hlimit : 4 ≤ env.recursionLimit) (hzero : read (text "0.0") = 0) {reg : Registry K}
    {now wall : K} (hfloats : ∀ x ∈ floatsOf (reg.persist now wall), Writes read repr x)
    (h : persist repr reg now wall = .ok t) :
    ∃ loaded, Loading.load env (.text t) = .ok loaded ∧
      loaded.values =
        (Registry.load (reg.persist now wall) env.now env.wall).values.map (restored repr) := by
  have hloads : JsonText.loads env.recursionLimit t =
      .ok (payload repr (reg.persist now wall)) := by
    rw [JsonText.loads_dumps h (fits_payload fun x hx => (hfloats x hx).literal) hlimit,
      joined_payload]
  rw [Loading.load, hloads]
  exact loadPayload_payload henv hzero fun x hx => (hfloats x hx).read

end

-- ---------------------------------------------------------------------------
-- A phone that was measured
-- ---------------------------------------------------------------------------

def wholeRepr (x : ℚ) : Text := JsonText.writeInt x.num ++ text ".0"

def readFloat (t : Text) : ℚ := (Numerals.float (t.map Char.ofNat)).getD 0

def phone : Atomic ℚ where
  id := "wifi:phone"
  kind := .wifi
  label := "Zo\u00eb's \"phone\""
  mode := .backup
  health := .good
  role := .wan
  capacity := ⟨20000000, 8000000, 1, some 4⟩
  quality := .unmeasured
  cost := ⟨true, 1500, 84, 2, 60⟩
  ifname := some "wlan0"
  present := true
  firstSeen := some 1
  lastSeen := some 9
  everConnected := true
  attributes := [("ssid", "Zo\u00eb\\5G")]

def phones : Registry ℚ := Keyed.empty.put phone

def laterEnv : Loading.Env ℚ := ⟨1000, exactFloats readFloat, 3, 130⟩

theorem load_persist_phone : ∃ t loaded, persist wholeRepr phones 10 100 = .ok t ∧
    Loading.load laterEnv (.text t) = .ok loaded ∧
      loaded.values = (Registry.load (phones.persist 10 100) 3 130).values.map
        (restored wholeRepr) := by
  have hfloats : floatsOf (phones.persist 10 100) = [100, 1, 60, 6] := by decide +kernel
  have hwrites : ∀ x ∈ floatsOf (phones.persist 10 100), Writes readFloat wholeRepr x := by
    simp only [hfloats, List.forall_mem_cons]
    exact ⟨⟨rfl, by decide +kernel⟩, ⟨rfl, by decide +kernel⟩, ⟨rfl, by decide +kernel⟩,
      ⟨rfl, by decide +kernel⟩, by simp⟩
  obtain ⟨t, ht⟩ : ∃ t, persist wholeRepr phones 10 100 = .ok t := ⟨_, rfl⟩
  have henv : laterEnv.floats = exactFloats readFloat := rfl
  obtain ⟨loaded, hloaded⟩ := load_persist henv (by decide) (by decide +kernel) hwrites ht
  exact ⟨t, loaded, ht, hloaded⟩

end Saved

end Wifucked
