import Wifucked.Atomics.Model
import Wifucked.Lib.JsonText
import Wifucked.Lib.Keyed

/-!
# The state file, whatever is in it

What `_load` makes of any file. The kinds, modes and roles of an entry are
checked, and one that is not known is passed over with its entry. The rest is
taken for what `persist` writes: some of it goes into the registry as it is, and
some raises an error that no entry's failure is expected to be.
-/

namespace Wifucked.Loading

open JsonText (Text Value File text get? oneOf)

inductive Raised where
  | keyError
  | valueError
  | typeError
  | attributeError
  | overflowError
  | recursionError
  deriving DecidableEq, Repr

/-- What of Python's floats the clocks' arithmetic needs. -/
structure Floats (φ : Type) where
  ofLiteral : Text → φ
  ofBool : Bool → φ
  /-- `none` where the number is too large. -/
  ofInt : ℤ → Option φ
  add : φ → φ → φ
  sub : φ → φ → φ
  max : φ → φ → φ

structure Env (φ : Type) where
  recursionLimit : ℕ
  floats : Floats φ
  now : φ
  wall : φ

structure Cost where
  metered : Value
  consumedBytes : Value
  livenessBytes : Value
  activations : Value
  activeSeconds : Value

structure Capacity (φ : Type) where
  downBps : Value
  upBps : Value
  confidence : Value
  measuredAt : Option φ

structure Restored (φ : Type) where
  id : Text
  kind : Kind
  label : Value
  mode : Mode
  role : PortRole
  health : Health
  everConnected : Value
  capacity : Capacity φ
  cost : Cost
  attributes : Value

variable {φ : Type} (env : Env φ)

def zero : Value := .float (text "0.0")

def field (fields : List (Text × Value)) (name : String) : Option Value := get? fields (text name)

-- ---------------------------------------------------------------------------
-- Checked fields
-- ---------------------------------------------------------------------------

def kinds : List (String × Kind) :=
  [("wifi", .wifi), ("usb_tether", .usbTether), ("usb_ethernet", .usbEthernet),
    ("ethernet", .ethernet), ("cellular", .cellular)]

def modes : List (String × Mode) := [("normal", .normal), ("backup", .backup), ("unused", .unused)]

def roles : List (String × PortRole) := [("wan", .wan), ("lan_out", .lanOut)]

def member? {α : Type} (members : List (String × α)) : Value → Option α
  | .string s => (members.find? fun m => text m.1 = s).map Prod.snd
  | _ => none

def member {α : Type} (members : List (String × α)) (v : Value) : Except Raised α :=
  match member? members v with
  | some a => .ok a
  | none => .error .valueError

-- ---------------------------------------------------------------------------
-- One entry
-- ---------------------------------------------------------------------------

/-- A number as an operand of a float. -/
def operand (F : Floats φ) : Value → Except Raised φ
  | .bool b => .ok (F.ofBool b)
  | .int i =>
    match F.ofInt i with
    | some x => .ok x
    | none => .error .overflowError
  | .float literal => .ok (F.ofLiteral literal)
  | _ => .error .typeError

def measuredAt (elapsed : φ) : Option Value → Except Raised (Option φ)
  | none => .ok none
  | some .null => .ok none
  | some age => do
    let age ← operand env.floats age
    return some (env.floats.sub env.now (env.floats.add age elapsed))

def reconstructCapacity (elapsed : φ) : Value → Except Raised (Capacity φ)
  | .object capacity => do
    let measuredAt ← measuredAt env elapsed (field capacity "measured_age_s")
    return ⟨(field capacity "down_bps").getD (.int 0), (field capacity "up_bps").getD (.int 0),
      (field capacity "confidence").getD zero, measuredAt⟩
  | _ => .error .attributeError

def costNames : List String :=
  ["metered", "consumed_bytes", "liveness_bytes", "activations", "active_seconds"]

def ofFields (cost : List (Text × Value)) : Cost where
  metered := (field cost "metered").getD (.bool false)
  consumedBytes := (field cost "consumed_bytes").getD (.int 0)
  livenessBytes := (field cost "liveness_bytes").getD (.int 0)
  activations := (field cost "activations").getD (.int 0)
  activeSeconds := (field cost "active_seconds").getD zero

/-- `Cost(**cost)`. -/
def costOf : Value → Except Raised Cost
  | .object cost =>
    if (cost.map Prod.fst).all (oneOf costNames) then .ok (ofFields cost)
    else .error .typeError
  | _ => .error .typeError

def kindOf : Option Value → Except Raised Kind
  | none => .error .keyError
  | some kind => member kinds kind

def restore (elapsed : φ) (id : Text) : Value → Except Raised (Restored φ)
  | .object entry => do
    let kind ← kindOf (field entry "kind")
    let mode ← member modes ((field entry "mode").getD (.string (text "unused")))
    let role ← member roles ((field entry "role").getD (.string (text "wan")))
    let capacity ← reconstructCapacity env elapsed ((field entry "capacity").getD (.object []))
    let cost ← costOf ((field entry "cost").getD (.object []))
    return {
      id, kind, mode, role, capacity, cost
      label := (field entry "label").getD (.string id)
      health := .absent
      everConnected := (field entry "ever_connected").getD (.bool false)
      attributes := (field entry "attributes").getD (.object []) }
  | _ => .error .typeError

/-- `none` where the entry is passed over. -/
def tryRestore (elapsed : φ) (item : Text × Value) : Except Raised (Option (Restored φ)) :=
  match restore env elapsed item.1 item.2 with
  | .ok restored => .ok (some restored)
  | .error .keyError => .ok none
  | .error .valueError => .ok none
  | .error e => .error e

-- ---------------------------------------------------------------------------
-- The file
-- ---------------------------------------------------------------------------

abbrev Registry (φ : Type) := Keyed (Restored φ) Restored.id

def loadEntries (elapsed : φ) (reg : Registry φ) : List (Text × Value) →
    Except Raised (Registry φ)
  | [] => .ok reg
  | item :: items => do
    match ← tryRestore env elapsed item with
    | none => loadEntries elapsed reg items
    | some restored => loadEntries elapsed (reg.put restored) items

def isNumeric : Value → Bool
  | .bool _ => true
  | .int _ => true
  | .float _ => true
  | _ => false

def elapsedSincePersist (payload : List (Text × Value)) : Except Raised φ :=
  match (field payload "persisted_at_wall").filter isNumeric with
  | none => .ok (env.floats.ofLiteral (text "0.0"))
  | some persisted => do
    let persisted ← operand env.floats persisted
    return env.floats.max (env.floats.ofLiteral (text "0.0")) (env.floats.sub env.wall persisted)

def items (fields : List (Text × Value)) : List (Text × Value) :=
  (Keyed.ofList fields : Keyed (Text × Value) Prod.fst).values

def loadPayload : Value → Except Raised (Registry φ)
  | .object payload => do
    let elapsed ← elapsedSincePersist env payload
    match (field payload "atomics").getD (.object []) with
    | .object atomics => loadEntries env elapsed .empty (items atomics)
    | _ => throw .attributeError
  | _ => .error .attributeError

/-- A registry that persists nothing has no file. -/
def load : File → Except Raised (Registry φ)
  | .absent => .ok .empty
  | .unreadable => .ok .empty
  | .undecodable _ => .error .valueError
  | .text t =>
    match JsonText.loads env.recursionLimit t with
    | .ok payload => loadPayload env payload
    | .error .decodeError => .ok .empty
    | .error .valueError => .error .valueError
    | .error .recursionError => .error .recursionError

end Wifucked.Loading
