import Mathlib.Order.Defs.LinearOrder
import Mathlib.Data.Option.Basic

/-!
# The atomic: one independently usable Internet connection
-/

namespace Wifucked

/-- What the user has permitted us to do with a connection. -/
inductive Mode where
  | normal
  | backup
  | unused
  deriving DecidableEq, Repr

inductive Kind where
  | wifi
  | usbTether
  | usbEthernet
  | ethernet
  | cellular
  deriving DecidableEq, Repr

inductive PortRole where
  | wan
  | lanOut
  deriving DecidableEq, Repr

inductive Health where
  | good
  | degraded
  | down
  | absent
  | unknown
  deriving DecidableEq, Repr

structure Capacity (K : Type) where
  downBps : Int
  upBps : Int
  confidence : K
  measuredAt : Option K
  deriving DecidableEq

structure Quality (K : Type) where
  rttMs : Option K
  jitterMs : Option K
  lossPct : Option K
  bloatMs : Option K
  deriving DecidableEq

structure Cost (K : Type) where
  metered : Bool
  consumedBytes : Int
  livenessBytes : Int
  activations : Int
  activeSeconds : K
  deriving DecidableEq

structure Atomic (K : Type) where
  id : String
  kind : Kind
  label : String
  mode : Mode
  health : Health
  role : PortRole
  capacity : Capacity K
  quality : Quality K
  cost : Cost K
  /-- Valid only while present. -/
  ifname : Option String
  present : Bool
  firstSeen : Option K
  lastSeen : Option K
  /-- Sticky once true. -/
  everConnected : Bool
  attributes : List (String × String)
  deriving DecidableEq

section

variable {K : Type}

/-- The interface, where there is one: `if atomic.ifname` takes an empty name
for none. -/
def Atomic.iface (a : Atomic K) : Option String := a.ifname.filter (· ≠ "")

def Atomic.usable (a : Atomic K) : Bool :=
  a.present && a.role = .wan && a.mode ≠ .unused && (a.health = .good || a.health = .degraded)

def Atomic.inNormalPool (a : Atomic K) : Bool := a.usable && a.mode = .normal

theorem Atomic.mode_of_inNormalPool {a : Atomic K} (h : a.inNormalPool) : a.mode = .normal := by
  simp only [inNormalPool, Bool.and_eq_true, decide_eq_true_eq] at h
  exact h.2

def Capacity.known [Zero K] [LT K] [DecidableLT K] (c : Capacity K) : Bool := 0 < c.confidence

def Capacity.unmeasured [Zero K] : Capacity K := ⟨0, 0, 0, none⟩

def Quality.unmeasured : Quality K := ⟨none, none, none, none⟩

def Cost.zero [Zero K] : Cost K := ⟨false, 0, 0, 0, 0⟩

end

end Wifucked
