import Wifucked.Lib.JsonText

/-!
# The configuration file

What `load` makes of the configuration file: defaults where there is no file or
none that can be read, and an error for some of the files that are JSON of
another shape. Of what is loaded, where the API listens is kept.
-/

namespace Wifucked.ConfigFile

open JsonText (Text Value File text oneOf)

inductive Raised where
  | attributeError
  | typeError
  | unicodeDecodeError
  | valueError
  | recursionError
  deriving DecidableEq, Repr

/-- Values are assigned as they are, of whatever type. -/
structure Config where
  apiHost : Value
  apiPort : Value

def Config.default : Config where
  apiHost := .string (text "10.44.0.1")
  apiPort := .int 8080

/-- What every object of a dataclass has besides its fields, none of which can be assigned. -/
def objectAttributes : List String :=
  ["__annotations__", "__class__", "__dataclass_fields__", "__dataclass_params__",
    "__delattr__", "__dir__", "__doc__", "__eq__", "__format__", "__ge__", "__getattribute__",
    "__getstate__", "__gt__", "__hash__", "__init__", "__init_subclass__", "__le__", "__lt__",
    "__match_args__", "__module__", "__ne__", "__new__", "__reduce__", "__reduce_ex__",
    "__repr__", "__setattr__", "__sizeof__", "__slots__", "__str__", "__subclasshook__"]

/-- Of a section that is merged, only whether that raises. -/
def merge : Option Value → Except Raised Unit
  | none => .ok ()
  | some (.object values) =>
    if (values.map Prod.fst).any (oneOf objectAttributes) then .error .attributeError
    else .ok ()
  | some _ => .error .attributeError

def stateDir : Option Value → Except Raised Unit
  | none => .ok ()
  | some (.string _) => .ok ()
  | some _ => .error .typeError

/-- Thresholds of any shape raise nothing. -/
def ofPayload : Value → Except Raised Config
  | .object payload => do
    let get (key : String) := JsonText.get? payload (text key)
    merge (get "lan")
    merge (get "lan_out")
    merge (get "fabric")
    merge (get "loops")
    stateDir (get "state_dir")
    return ⟨(get "api_host").getD Config.default.apiHost,
      (get "api_port").getD Config.default.apiPort⟩
  | _ => .error .attributeError

def load (recursionLimit : ℕ) : File → Except Raised Config
  | .absent => .ok .default
  | .unreadable => .ok .default
  | .undecodable _ => .error .unicodeDecodeError
  | .text t =>
    match JsonText.loads recursionLimit t with
    | .ok payload => ofPayload payload
    | .error .decodeError => .ok .default
    | .error .valueError => .error .valueError
    | .error .recursionError => .error .recursionError

end Wifucked.ConfigFile
