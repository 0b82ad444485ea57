import Mathlib.Algebra.Order.Ring.Rat
import Wifucked.Atomics.Loading

/-!
# Which entries a bad one takes with it

An entry is well formed that has every field it has in the shape `persist` gives
it. What a file ought to restore is what its well-formed entries say; what it
does restore is that, as long as nothing in it raises what an entry is not
expected to raise, and each other entry is one of an unknown kind, mode or role.
-/

namespace Wifucked.Loading

open JsonText (Text Value File text get? oneOf)

variable {φ : Type} (env : Env φ)

-- ---------------------------------------------------------------------------
-- Well-formed entries
-- ---------------------------------------------------------------------------

def isText : Value → Bool
  | .string _ => true
  | _ => false

def isBool : Value → Bool
  | .bool _ => true
  | _ => false

def isInt : Value → Bool
  | .int _ => true
  | _ => false

def isFloat : Value → Bool
  | .int _ => true
  | .float _ => true
  | _ => false

def isFloatOrNull : Value → Bool
  | .null => true
  | v => isFloat v

def capacityFormed : Value → Bool
  | .object capacity =>
      (field capacity "down_bps").all isInt && (field capacity "up_bps").all isInt &&
        (field capacity "confidence").all isFloat &&
          (field capacity "measured_age_s").all isFloatOrNull
  | _ => false

def costFormed : Value → Bool
  | .object cost => (cost.map Prod.fst).all (oneOf costNames) &&
      (field cost "metered").all isBool && (field cost "consumed_bytes").all isInt &&
      (field cost "liveness_bytes").all isInt && (field cost "activations").all isInt &&
      (field cost "active_seconds").all isFloat
  | _ => false

def attributesFormed : Value → Bool
  | .object attributes => (items attributes).all fun item => isText item.2
  | _ => false

def known {α : Type} (members : List (String × α)) (v : Value) : Bool := (member? members v).isSome

def recognised (entry : List (Text × Value)) : Bool :=
  (field entry "kind").any (known kinds) && (field entry "mode").all (known modes) &&
    (field entry "role").all (known roles)

def wellFormed (entry : List (Text × Value)) : Bool :=
  recognised entry && (field entry "label").all isText &&
    (field entry "ever_connected").all isBool && (field entry "capacity").all capacityFormed &&
      (field entry "cost").all costFormed && (field entry "attributes").all attributesFormed

def fieldsOf : Value → List (Text × Value)
  | .object fields => fields
  | _ => []

def ageOf (F : Floats φ) : Option Value → Option φ
  | some age => (operand F age).toOption
  | none => none

def said (elapsed : φ) (id : Text) (entry : List (Text × Value)) : Restored φ where
  id := id
  kind := ((field entry "kind").bind (member? kinds)).getD .wifi
  label := (field entry "label").getD (.string id)
  mode := ((field entry "mode").bind (member? modes)).getD .unused
  role := ((field entry "role").bind (member? roles)).getD .wan
  health := .absent
  everConnected := (field entry "ever_connected").getD (.bool false)
  capacity :=
    let capacity := fieldsOf ((field entry "capacity").getD .null)
    { downBps := (field capacity "down_bps").getD (.int 0)
      upBps := (field capacity "up_bps").getD (.int 0)
      confidence := (field capacity "confidence").getD zero
      measuredAt := (ageOf env.floats (field capacity "measured_age_s")).map fun age =>
        env.floats.sub env.now (env.floats.add age elapsed) }
  cost := ofFields (fieldsOf ((field entry "cost").getD .null))
  attributes := (field entry "attributes").getD (.object [])

/-- What ought to become of an entry. -/
def sound (elapsed : φ) (item : Text × Value) : Option (Restored φ) :=
  match item.2 with
  | .object entry => if wellFormed entry then some (said env elapsed item.1 entry) else none
  | _ => none

-- ---------------------------------------------------------------------------
-- What is asked of loading
-- ---------------------------------------------------------------------------

def elapsedOf (payload : List (Text × Value)) : φ :=
  (elapsedSincePersist env payload).toOption.getD (env.floats.ofLiteral (text "0.0"))

def payloadOf : File → Value
  | .text t => (JsonText.loads env.recursionLimit t).toOption.getD .null
  | _ => .null

def soundEntries (file : File) : List (Restored φ) :=
  let payload := fieldsOf (payloadOf env file)
  (items (fieldsOf ((field payload "atomics").getD .null))).filterMap
    (sound env (elapsedOf env payload))

/-- Nothing is raised, and the well-formed entries are restored, and no others. -/
def Isolated (file : File) : Prop :=
  ∃ reg, load env file = .ok reg ∧ reg.values = soundEntries env file

-- ---------------------------------------------------------------------------
-- What loading needs
-- ---------------------------------------------------------------------------

def InRange (F : Floats φ) (v : Value) : Prop := ∀ i, v = .int i → (F.ofInt i).isSome

def ageIn (entry : List (Text × Value)) : Option Value :=
  field (fieldsOf ((field entry "capacity").getD .null)) "measured_age_s"

/-- An entry that is well formed, or is passed over before anything else of it is read. -/
def EntryFit : Value → Prop
  | .object entry => recognised entry = false ∨
      wellFormed entry = true ∧ ∀ age ∈ ageIn entry, InRange env.floats age
  | _ => False

def PayloadFit : Value → Prop
  | .object payload => (∀ wall ∈ field payload "persisted_at_wall", InRange env.floats wall) ∧
      ∀ atomics ∈ field payload "atomics", ∃ entries, atomics = .object entries ∧
        ∀ item ∈ items entries, EntryFit env item.2
  | _ => False

def Fit : File → Prop
  | .absent => True
  | .unreadable => True
  | .undecodable _ => False
  | .text t =>
    match JsonText.loads env.recursionLimit t with
    | .ok payload => PayloadFit env payload
    | .error .decodeError => True
    | .error _ => False

-- ---------------------------------------------------------------------------
-- Checked fields
-- ---------------------------------------------------------------------------

variable {env : Env φ} {elapsed : φ} {id : Text} {entry : List (Text × Value)}

theorem member_getD {α : Type} (members : List (String × α)) (default : String) {a : α}
    (h : member? members (.string (text default)) = some a) (v : Option Value) :
    member members (v.getD (.string (text default))) =
      if v.all (known members) then .ok ((v.bind (member? members)).getD a)
      else .error .valueError := by
  cases v with
  | none => simp [member, h]
  | some v => cases hv : member? members v <;> simp [member, known, hv]

theorem kindOf_eq (kind : Option Value) : kindOf kind =
    if kind.any (known kinds) then .ok ((kind.bind (member? kinds)).getD .wifi)
    else if kind.isNone then .error .keyError else .error .valueError := by
  cases kind with
  | none => rfl
  | some v => cases hv : member? kinds v <;> simp [kindOf, member, known, hv]

theorem tryRestore_unrecognised (h : recognised entry = false) :
    tryRestore env elapsed (id, .object entry) = .ok none := by
  have hmode := member_getD modes "unused" (a := .unused) rfl
    (field entry "mode")
  have hrole := member_getD roles "wan" (a := .wan) rfl
    (field entry "role")
  have hkind := kindOf_eq (field entry "kind")
  unfold tryRestore restore
  simp only [hkind, hmode, hrole, bind, Except.bind]
  cases hk : (field entry "kind").any (known kinds) with
  | false => cases (field entry "kind").isNone <;> simp
  | true =>
    cases hm : (field entry "mode").all (known modes) with
    | false => simp
    | true =>
      have hr : (field entry "role").all (known roles) = false := by
        simpa [recognised, hk, hm] using h
      simp [hr]

theorem restore_recognised (h : recognised entry = true) :
    restore env elapsed id (.object entry) = (do
      let capacity ← reconstructCapacity env elapsed ((field entry "capacity").getD (.object []))
      let cost ← costOf ((field entry "cost").getD (.object []))
      return { said env elapsed id entry with capacity, cost }) := by
  simp only [recognised, Bool.and_eq_true] at h
  obtain ⟨⟨hkind, hmode⟩, hrole⟩ := h
  have hkind' := kindOf_eq (field entry "kind")
  have hmode' := member_getD modes "unused" (a := .unused) rfl
    (field entry "mode")
  have hrole' := member_getD roles "wan" (a := .wan) rfl
    (field entry "role")
  rw [hkind, if_pos rfl] at hkind'
  rw [hmode, if_pos rfl] at hmode'
  rw [hrole, if_pos rfl] at hrole'
  simp only [restore, hkind', hmode', hrole', bind, Except.bind]
  rfl

-- ---------------------------------------------------------------------------
-- Unchecked fields
-- ---------------------------------------------------------------------------

theorem getD_object {p : Value → Bool} {v : Option Value}
    (hp : ∀ w, p w = true → ∃ fields, w = .object fields) (h : v.all p = true) :
    v.getD (.object []) = .object (fieldsOf (v.getD .null)) := by
  cases v with
  | none => rfl
  | some w =>
    obtain ⟨fields, rfl⟩ := hp w (by simpa using h)
    rfl

theorem object_of_capacityFormed (w : Value) (h : capacityFormed w = true) :
    ∃ fields, w = .object fields := by
  cases w <;> simp_all [capacityFormed]

theorem object_of_costFormed (w : Value) (h : costFormed w = true) :
    ∃ fields, w = .object fields := by
  cases w <;> simp_all [costFormed]

theorem operand_inRange {F : Floats φ} {v : Value} (hv : isFloat v = true) (h : InRange F v) :
    ∃ x, operand F v = .ok x := by
  cases v with
  | int i =>
    obtain ⟨x, hx⟩ := Option.isSome_iff_exists.mp (h i rfl)
    exact ⟨x, by simp [operand, hx]⟩
  | float literal => exact ⟨_, rfl⟩
  | _ => cases hv

theorem inRange_of_operand {F : Floats φ} {v : Value} (h : operand F v = .ok x) : InRange F v := by
  rintro i rfl
  cases hi : F.ofInt i with
  | some x => rfl
  | none => simp [operand, hi] at h

theorem measuredAt_eq (elapsed : φ) {age : Option Value} (hage : age.all isFloatOrNull = true)
    (h : ∀ v ∈ age, InRange env.floats v) :
    measuredAt env elapsed age = .ok ((ageOf env.floats age).map fun a =>
      env.floats.sub env.now (env.floats.add a elapsed)) := by
  match age with
  | none => rfl
  | some .null => rfl
  | some (.int i) =>
    obtain ⟨x, hx⟩ := operand_inRange (v := .int i) rfl (h _ rfl)
    simp [measuredAt, ageOf, hx, Except.toOption, bind, Except.bind, pure, Except.pure]
  | some (.float literal) => rfl
  | some (.bool b) => cases hage
  | some (.string t) => cases hage
  | some (.array l) => cases hage
  | some (.object l) => cases hage

theorem inRange_of_measuredAt {age : Option Value} (h : measuredAt env elapsed age = .ok r) :
    ∀ v ∈ age, InRange env.floats v := by
  rintro v rfl
  cases v with
  | null =>
    intro i hi
    cases hi
  | _ =>
    obtain ⟨x, hx, -⟩ := JsonText.bind_eq_ok.mp h
    exact inRange_of_operand hx

/-- What the unchecked fields raise is passed over by no entry. -/
def Uncaught (e : Raised) : Prop := e ≠ .keyError ∧ e ≠ .valueError

theorem uncaught_operand {F : Floats φ} {v : Value} (h : operand F v = .error e) : Uncaught e := by
  cases v with
  | int i =>
    cases hi : F.ofInt i with
    | some x => simp [operand, hi] at h
    | none =>
      simp only [operand, hi, Except.error.injEq] at h
      subst h
      exact ⟨by simp, by simp⟩
  | bool b => cases h
  | float literal => cases h
  | _ =>
    simp only [operand, Except.error.injEq] at h
    subst h
    exact ⟨by simp, by simp⟩

theorem uncaught_measuredAt {age : Option Value} (h : measuredAt env elapsed age = .error e) :
    Uncaught e := by
  cases age with
  | none => cases h
  | some v =>
    cases v with
    | null => cases h
    | _ =>
      rcases JsonText.bind_eq_error.mp h with h | ⟨x, -, h⟩
      · exact uncaught_operand h
      · cases h

theorem uncaught_reconstructCapacity (h : reconstructCapacity env elapsed v = .error e) :
    Uncaught e := by
  cases v with
  | object capacity =>
    rcases JsonText.bind_eq_error.mp h with h | ⟨x, -, h⟩
    · exact uncaught_measuredAt h
    · cases h
  | _ =>
    simp only [reconstructCapacity, Except.error.injEq] at h
    subst h
    exact ⟨by simp, by simp⟩

theorem uncaught_costOf (h : costOf v = .error e) : Uncaught e := by
  have htype : e = .typeError := by
    unfold costOf at h
    split at h
    · split at h
      · cases h
      · exact (Except.error.inj h).symm
    · exact (Except.error.inj h).symm
  subst htype
  exact ⟨by simp, by simp⟩

theorem uncaught_restore (hrecognised : recognised entry = true)
    (h : restore env elapsed id (.object entry) = .error e) : Uncaught e := by
  rw [restore_recognised hrecognised] at h
  rcases JsonText.bind_eq_error.mp h with h | ⟨capacity, -, h⟩
  · exact uncaught_reconstructCapacity h
  · rcases JsonText.bind_eq_error.mp h with h | ⟨cost, -, h⟩
    · exact uncaught_costOf h
    · cases h

-- ---------------------------------------------------------------------------
-- One entry
-- ---------------------------------------------------------------------------

theorem tryRestore_eq_some {item : Text × Value} :
    tryRestore env elapsed item = .ok (some a) ↔ restore env elapsed item.1 item.2 = .ok a := by
  unfold tryRestore
  cases restore env elapsed item.1 item.2 with
  | ok restored => simp
  | error e => cases e <;> simp

theorem restore_id {entry : Value} (h : restore env elapsed id entry = .ok a) : a.id = id := by
  cases entry with
  | object entry =>
    cases hrecognised : recognised entry with
    | false =>
      have hnone : tryRestore env elapsed (id, .object entry) = .ok none :=
        tryRestore_unrecognised hrecognised
      rw [tryRestore_eq_some.mpr h] at hnone
      cases hnone
    | true =>
      rw [restore_recognised hrecognised] at h
      obtain ⟨capacity, -, h⟩ := JsonText.bind_eq_ok.mp h
      obtain ⟨cost, -, h⟩ := JsonText.bind_eq_ok.mp h
      rw [← Except.ok.inj h]
      rfl
  | _ => cases h

theorem costOf_formed {v : Option Value} (h : v.all costFormed = true) :
    costOf (v.getD (.object [])) = .ok (ofFields (fieldsOf (v.getD .null))) := by
  rw [getD_object object_of_costFormed h]
  cases v with
  | none => rfl
  | some w =>
    obtain ⟨fields, rfl⟩ := object_of_costFormed w (by simpa using h)
    have hnames : (fields.map Prod.fst).all (oneOf costNames) := by
      simp only [Option.all_some, costFormed, Bool.and_eq_true] at h
      exact h.1.1.1.1.1
    exact if_pos hnames

theorem ageIn_formed (h : (field entry "capacity").all capacityFormed = true) :
    (ageIn entry).all isFloatOrNull = true := by
  unfold ageIn
  cases hcapacity : field entry "capacity" with
  | none => rfl
  | some w =>
    rw [hcapacity] at h
    obtain ⟨fields, rfl⟩ := object_of_capacityFormed w (by simpa using h)
    simp only [Option.all_some, capacityFormed, Bool.and_eq_true] at h
    exact h.2

theorem restore_wellFormed (h : wellFormed entry = true)
    (hage : ∀ age ∈ ageIn entry, InRange env.floats age) :
    restore env elapsed id (.object entry) = .ok (said env elapsed id entry) := by
  simp only [wellFormed, Bool.and_eq_true] at h
  obtain ⟨⟨⟨⟨⟨hrecognised, -⟩, -⟩, hcapacity⟩, hcost⟩, -⟩ := h
  have hmeasured := measuredAt_eq elapsed (ageIn_formed hcapacity) hage
  unfold ageIn at hmeasured
  rw [restore_recognised hrecognised, getD_object object_of_capacityFormed hcapacity,
    costOf_formed hcost]
  simp only [reconstructCapacity, hmeasured, bind, Except.bind]
  rfl

theorem inRange_of_restore (h : wellFormed entry = true)
    (hrestore : restore env elapsed id (.object entry) = .ok a) :
    ∀ age ∈ ageIn entry, InRange env.floats age := by
  simp only [wellFormed, Bool.and_eq_true] at h
  obtain ⟨⟨⟨⟨⟨hrecognised, -⟩, -⟩, hcapacity⟩, -⟩, -⟩ := h
  rw [restore_recognised hrecognised, getD_object object_of_capacityFormed hcapacity] at hrestore
  obtain ⟨capacity, hreconstruct, -⟩ := JsonText.bind_eq_ok.mp hrestore
  obtain ⟨measured, hmeasured, -⟩ := JsonText.bind_eq_ok.mp hreconstruct
  exact inRange_of_measuredAt hmeasured

theorem tryRestore_eq_sound (item : Text × Value) :
    tryRestore env elapsed item = .ok (sound env elapsed item) ↔ EntryFit env item.2 := by
  obtain ⟨id, entry⟩ := item
  cases entry with
  | object entry =>
    cases hrecognised : recognised entry with
    | false =>
      simp [tryRestore_unrecognised hrecognised, sound, EntryFit, wellFormed, hrecognised]
    | true =>
      cases hformed : wellFormed entry with
      | true =>
        have hsound : sound env elapsed (id, .object entry) = some (said env elapsed id entry) := by
          simp [sound, hformed]
        rw [hsound, tryRestore_eq_some]
        simp only [EntryFit, hrecognised, hformed, Bool.true_eq_false, true_and, false_or]
        exact ⟨inRange_of_restore hformed, restore_wellFormed hformed⟩
      | false =>
        simp only [EntryFit, hrecognised, hformed, Bool.true_eq_false, Bool.false_eq_true,
          false_and, or_self, iff_false]
        intro h
        have hsound : sound env elapsed (id, .object entry) = none := by simp [sound, hformed]
        rw [hsound] at h
        cases hrestore : restore env elapsed id (.object entry) with
        | ok a =>
          rw [tryRestore_eq_some.mpr hrestore] at h
          cases h
        | error e =>
          obtain ⟨hkey, hvalue⟩ := uncaught_restore hrecognised hrestore
          unfold tryRestore at h
          rw [hrestore] at h
          cases e with
          | keyError => exact hkey rfl
          | valueError => exact hvalue rfl
          | _ => cases h
  | _ => simp [tryRestore, restore, EntryFit]

-- ---------------------------------------------------------------------------
-- All entries
-- ---------------------------------------------------------------------------

theorem loadEntries_eq {f : Text × Value → Option (Restored φ)} {entries : List (Text × Value)}
    (h : ∀ item ∈ entries, tryRestore env elapsed item = .ok (f item)) (reg : Registry φ) :
    loadEntries env elapsed reg entries = .ok (reg.putAll (entries.filterMap f)) := by
  induction entries generalizing reg with
  | nil => rfl
  | cons item entries ih =>
    obtain ⟨hitem, h⟩ := List.forall_mem_cons.mp h
    cases hf : f item with
    | none =>
      rw [hf] at hitem
      rw [loadEntries, hitem, List.filterMap_cons_none hf]
      exact ih h reg
    | some a =>
      rw [hf] at hitem
      rw [loadEntries, hitem, List.filterMap_cons_some hf]
      exact ih h (reg.put a)

theorem tryRestore_of_loadEntries {entries : List (Text × Value)} {reg reg' : Registry φ}
    (h : loadEntries env elapsed reg entries = .ok reg') :
    ∀ item ∈ entries, ∃ r, tryRestore env elapsed item = .ok r := by
  induction entries generalizing reg with
  | nil => simp
  | cons item entries ih =>
    obtain ⟨r, hr, h⟩ := JsonText.bind_eq_ok.mp h
    refine List.forall_mem_cons.mpr ⟨⟨r, hr⟩, ?_⟩
    cases r with
    | none => exact ih h
    | some a => exact ih h

theorem sound_id {item : Text × Value} (h : sound env elapsed item = some a) : a.id = item.1 := by
  unfold sound at h
  split at h
  · split at h
    · rw [← Option.some.inj h]
      rfl
    · cases h
  · cases h

theorem loadEntries_isolated {entries : List (Text × Value)} (hn : (entries.map Prod.fst).Nodup) :
    (∃ reg, loadEntries env elapsed .empty entries = .ok reg ∧
      reg.values = entries.filterMap (sound env elapsed)) ↔
    ∀ item ∈ entries, EntryFit env item.2 := by
  constructor
  · rintro ⟨reg, hload, hvalues⟩
    have hall := tryRestore_of_loadEntries hload
    let f (item : Text × Value) := (tryRestore env elapsed item).toOption.join
    have hf : ∀ item ∈ entries, tryRestore env elapsed item = .ok (f item) := by
      intro item hitem
      obtain ⟨r, hr⟩ := hall item hitem
      simp [f, hr, Except.toOption]
    have hid : ∀ item a, f item = some a → a.id = item.1 := by
      intro item a ha
      cases hr : tryRestore env elapsed item with
      | error e => simp [f, hr, Except.toOption] at ha
      | ok r =>
        have hr' : r = some a := by simpa [f, hr, Except.toOption] using ha
        subst hr'
        exact restore_id (tryRestore_eq_some.mp hr)
    rw [loadEntries_eq hf] at hload
    have hfilter : entries.filterMap f = entries.filterMap (sound env elapsed) := by
      rw [← hvalues, ← Except.ok.inj hload]
      exact (Keyed.values_ofList (hn.sublist (Keyed.sublist_filterMap hid entries))).symm
    intro item hitem
    rw [← tryRestore_eq_sound, hf item hitem,
      Keyed.filterMap_inj hid (fun _ _ => sound_id) hn hfilter item hitem]
  · intro h
    have hsound : ∀ item ∈ entries,
        tryRestore env elapsed item = .ok (sound env elapsed item) := fun item hitem =>
      (tryRestore_eq_sound item).mpr (h item hitem)
    refine ⟨_, loadEntries_eq hsound _, ?_⟩
    exact Keyed.values_ofList (hn.sublist (Keyed.sublist_filterMap (fun _ _ => sound_id) entries))

-- ---------------------------------------------------------------------------
-- The file
-- ---------------------------------------------------------------------------

theorem nodup_items (fields : List (Text × Value)) : ((items fields).map Prod.fst).Nodup :=
  (Keyed.ofList fields : Keyed (Text × Value) Prod.fst).nodup

theorem operand_eq_ok {F : Floats φ} {v : Value} (hv : isNumeric v = true) :
    (∃ x, operand F v = .ok x) ↔ InRange F v := by
  constructor
  · rintro ⟨x, hx⟩
    exact inRange_of_operand hx
  · intro h
    cases v with
    | bool b => exact ⟨_, rfl⟩
    | int i => exact operand_inRange rfl h
    | float literal => exact ⟨_, rfl⟩
    | _ => cases hv

theorem elapsed_eq_ok {payload : List (Text × Value)} :
    (∃ x, elapsedSincePersist env payload = .ok x) ↔
      ∀ wall ∈ field payload "persisted_at_wall", InRange env.floats wall := by
  unfold elapsedSincePersist
  cases hwall : field payload "persisted_at_wall" with
  | none => simp
  | some wall =>
    simp only [Option.mem_some_iff, forall_eq']
    cases hnumeric : isNumeric wall with
    | false =>
      have hrange : InRange env.floats wall := by
        rintro i rfl
        cases hnumeric
      simp [Option.filter, hnumeric, hrange]
    | true =>
      rw [← operand_eq_ok hnumeric]
      simp only [Option.filter, hnumeric, if_true]
      constructor
      · rintro ⟨x, hx⟩
        obtain ⟨y, hy, -⟩ := JsonText.bind_eq_ok.mp hx
        exact ⟨y, hy⟩
      · rintro ⟨y, hy⟩
        exact ⟨_, JsonText.bind_eq_ok.mpr ⟨y, hy, rfl⟩⟩

/-- What the entries of a payload come to, given the time since it was written. -/
theorem loadAtomics_isolated (elapsed : φ) (atomics : Option Value) :
    (∃ reg, (match atomics.getD (.object []) with
      | .object entries => loadEntries env elapsed .empty (items entries)
      | _ => .error .attributeError) = .ok reg ∧
      reg.values = (items (fieldsOf (atomics.getD .null))).filterMap (sound env elapsed)) ↔
    ∀ v ∈ atomics, ∃ entries, v = .object entries ∧
      ∀ item ∈ items entries, EntryFit env item.2 := by
  cases atomics with
  | none =>
    simp only [Option.getD_none, Option.not_mem_none, false_implies, implies_true, iff_true]
    exact ⟨.empty, rfl, rfl⟩
  | some v =>
    cases v with
    | object entries => simpa [fieldsOf] using loadEntries_isolated (nodup_items entries)
    | _ => simp

theorem loadPayload_isolated (env : Env φ) (v : Value) :
    (∃ reg, loadPayload env v = .ok reg ∧ reg.values =
      (items (fieldsOf ((field (fieldsOf v) "atomics").getD .null))).filterMap
        (sound env (elapsedOf env (fieldsOf v)))) ↔ PayloadFit env v := by
  cases v with
  | object payload =>
    constructor
    · rintro ⟨reg, h, hvalues⟩
      obtain ⟨x, hx, h⟩ := JsonText.bind_eq_ok.mp h
      have helapsed : elapsedOf env payload = x := by simp [elapsedOf, hx, Except.toOption]
      rw [fieldsOf, helapsed] at hvalues
      exact ⟨elapsed_eq_ok.mp ⟨x, hx⟩, (loadAtomics_isolated x _).mp ⟨reg, h, hvalues⟩⟩
    · rintro ⟨hwall, hatomics⟩
      obtain ⟨x, hx⟩ := elapsed_eq_ok.mpr hwall
      have helapsed : elapsedOf env payload = x := by simp [elapsedOf, hx, Except.toOption]
      obtain ⟨reg, h, hvalues⟩ := (loadAtomics_isolated x _).mpr hatomics
      refine ⟨reg, JsonText.bind_eq_ok.mpr ⟨x, hx, h⟩, ?_⟩
      rw [fieldsOf, helapsed]
      exact hvalues
  | _ => simp [loadPayload, PayloadFit]

theorem isolated_iff (env : Env φ) (file : File) : Isolated env file ↔ Fit env file := by
  cases file with
  | absent => exact ⟨fun _ => trivial, fun _ => ⟨.empty, rfl, rfl⟩⟩
  | unreadable => exact ⟨fun _ => trivial, fun _ => ⟨.empty, rfl, rfl⟩⟩
  | undecodable bytes =>
    refine ⟨?_, fun h => h.elim⟩
    rintro ⟨reg, h, -⟩
    cases h
  | text t =>
    cases hloads : JsonText.loads env.recursionLimit t with
    | ok payload =>
      have hpayload := loadPayload_isolated env payload
      simpa [Isolated, load, soundEntries, payloadOf, Fit, hloads, Except.toOption] using hpayload
    | error e =>
      have hpayload : payloadOf env (.text t) = .null := by
        simp [payloadOf, hloads, Except.toOption]
      cases e with
      | decodeError =>
        simp only [Fit, hloads, iff_true]
        refine ⟨.empty, by simp [load, hloads], ?_⟩
        rw [soundEntries, hpayload]
        rfl
      | valueError => simp [Isolated, load, Fit, hloads]
      | recursionError => simp [Isolated, load, Fit, hloads]

def exactFloats : Floats ℚ where
  ofLiteral literal := (Numerals.float (literal.map Char.ofNat)).getD 0
  ofBool b := b.toNat
  ofInt i := if i.natAbs < 2 ^ 1024 then some i else none
  add := (· + ·)
  sub := (· - ·)
  max x y := if x < y then y else x

def exactEnv : Env ℚ where
  recursionLimit := 900
  floats := exactFloats
  now := 10
  wall := 1000

def strayFile : File := .text (text ("\x7b\"atomics\": \x7b\"wifi:home\": " ++
  "\x7b\"kind\": \"wifi\", \"mode\": \"normal\"\x7d, \"x\": 5\x7d\x7d"))

theorem stray_entry_raises : ¬Isolated exactEnv strayFile ∧
    load exactEnv strayFile = .error .typeError ∧
      (soundEntries exactEnv strayFile).map Restored.id = [text "wifi:home"] := by
  have hload : load exactEnv strayFile = .error .typeError := by rfl
  refine ⟨?_, hload, by decide +kernel⟩
  rintro ⟨reg, h, -⟩
  rw [hload] at h
  cases h

end Wifucked.Loading
