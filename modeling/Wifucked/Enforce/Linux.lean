import Wifucked.Lib.Numerals
import Wifucked.Atomics.Identity
import Wifucked.Enforce.Kernel
import Wifucked.Lan

/-!
# The enforcer of the kernel

Reads what is installed, compares it with the desired state, and where that is
not all there issues every command the desired state calls for. Nothing is ever
taken away.
-/

namespace Wifucked

structure LinuxEnforcer where
  lanMode : String
  baseInterface : String
  profiles : List ServiceProfile

def LinuxEnforcer.ofLanMode (lanMode : String) : LinuxEnforcer :=
  ⟨lanMode, "wlan0", profilesForLanMode lanMode⟩

def ifbForIfname (ifname : String) : String :=
  String.ofList ("ifb-".toList ++ hexPrefix 8 (Sha256.ofString ifname))

/-- Names of the devices this module makes for itself. -/
def isIfb (dev : String) : Bool := "ifb-".toList <+: dev.toList

-- ---------------------------------------------------------------------------
-- Parsing
-- ---------------------------------------------------------------------------

/-- A whole number, in decimal or after `0x` in hexadecimal. -/
def parseInt : Json → Option Int
  | .int i => some i
  | .str s =>
    match Numerals.strip s.toList with
    | '0' :: x :: digits =>
      if x = 'x' ∨ x = 'X' then
        (Numerals.nat 16 (if digits.head? = some '_' then digits.tail else digits)).map Int.ofNat
      else Numerals.int ('0' :: x :: digits)
    | text => Numerals.int text
  | _ => none

def units : List (String × ℚ) :=
  [("gibit", 1024 ^ 3), ("mibit", 1024 ^ 2), ("kibit", 1024), ("tbit", 1000000000000),
    ("gbit", 1000000000), ("mbit", 1000000), ("kbit", 1000), ("bit", 1)]

/-- Bits per second, from a number or a text such as `95Mbit`. -/
def parseRate : Json → Option Int
  | .int i => some i
  | .str s =>
    let text := (Numerals.strip s.toList).map Char.toLower
    if text = [] ∨ text = "unlimited".toList then none
    else
      match units.find? fun u => u.1.toList <:+ text with
      | some (suffix, unit) =>
        (Numerals.float (text.take (text.length - suffix.toList.length))).map fun number =>
          trunc (number * unit)
      | none => (Numerals.float text).map trunc
  | _ => none

def close (a b : Int) : Bool := a = b || 50 * (a - b).natAbs ≤ max a.natAbs b.natAbs

-- ---------------------------------------------------------------------------
-- Reading actual state
-- ---------------------------------------------------------------------------

/-- A `TypeError`: the mark of this rule is no number and no text. -/
structure UnreadableMark where
  rule : NftRule
  deriving DecidableEq, Repr

def cakeOf (q : QdiscEntry) : Option (String × Int × String) :=
  if q.kind ≠ "cake" then none
  else
    match parseRate q.bandwidth with
    | none => none
    | some rate => if q.dev = "" then none else some (q.dev, rate, q.diffserv.getD "diffserv4")

def cakeByDev (entries : List QdiscEntry) : Keyed (String × Int × String) Prod.fst :=
  Keyed.ofList (entries.filterMap cakeOf)

def downBpsOf (entries : List QdiscEntry) (dev : String) : Int :=
  ((cakeByDev entries).get? (ifbForIfname dev)).elim 0 (·.2.1)

def readShaping (entries : List QdiscEntry) : List Shaping :=
  ((cakeByDev entries).values.filter fun c => !isIfb c.1).map fun c =>
    ⟨c.1, downBpsOf entries c.1, c.2.1, c.2.2⟩

namespace NftRule

/-- What the last expression on the incoming interface compares it with,
whichever way it compares. -/
def iifname (rule : NftRule) : Json :=
  rule.expr.foldl (fun seen e =>
    match e with
    | .matching _ (.metaKey "iifname") right => right
    | _ => seen) .null

def markval (rule : NftRule) : Json :=
  rule.expr.foldl (fun seen e =>
    match e with
    | .mangle (.metaKey "mark") value => value
    | _ => seen) .null

def unreadable (rule : NftRule) : Bool :=
  rule.table = markTable && rule.iifname ≠ .null && rule.markval = .composite

end NftRule

def intOf : Json → Option Int
  | .bool b => some (if b then 1 else 0)
  | .int i => some i
  | .str s => Numerals.int s.toList
  | _ => none

/-- The number after the last point of an interface's name. -/
def vlanSuffix : Json → Option Int
  | .str ifname => (Numerals.afterLast '.' ifname.toList).bind Numerals.int
  | _ => none

/-- The pair of VLAN and mark a rule is read as; without a VLAN in the name of
its interface the mark stands for it. -/
def NftRule.mark (rule : NftRule) : Option (Int × Int) :=
  if rule.table ≠ markTable ∨ rule.iifname = .null then none
  else (intOf rule.markval).map fun fwmark => ((vlanSuffix rule.iifname).getD fwmark, fwmark)

def readMarks (rules : List NftRule) : Except UnreadableMark (List (Int × Int)) :=
  match rules.find? (·.unreadable) with
  | some rule => .error ⟨rule⟩
  | none => .ok (rules.filterMap (·.mark))

def readTableDefaultDev (t : Tools) (k : Kernel) (table : Int) : Option String :=
  (t.routeShow k table).bind fun routes => (routes.find? (·.dst = "default")).bind (·.dev)

def readRoutes (t : Tools) (k : Kernel) (rules : List RuleEntry) : List RouteRule :=
  rules.filterMap fun rule =>
    (parseInt rule.fwmark).bind fun fwmark =>
      (parseInt rule.table).bind fun table =>
        (readTableDefaultDev t k table).map fun dev => ⟨fwmark, table, dev⟩

/-- `none` when nothing could be read at all. -/
def readActual (t : Tools) (k : Kernel) : Except UnreadableMark (Option DesiredState) :=
  match (t.listRuleset k).elim (.ok none) fun rules => (readMarks rules).map some with
  | .error e => .error e
  | .ok marks =>
    let shaping := (t.qdiscShow k).map readShaping
    let routes := (t.ruleShow k).map (readRoutes t k)
    if shaping = none ∧ marks = none ∧ routes = none then .ok none
    else
      .ok (some
        { shaping := (shaping.getD []).insertionSort fun s t => s.ifname ≤ t.ifname
          routes := (routes.getD []).insertionSort fun r s => r.sortKey ≤ s.sortKey
          marks := (marks.getD []).insertionSort fun p q => toLex p ≤ toLex q
          lanOutMarks := [] })

-- ---------------------------------------------------------------------------
-- Reconciling
-- ---------------------------------------------------------------------------

def shapingConverged (found : Option Shaping) (want : Shaping) : Bool :=
  match found with
  | none => false
  | some s => s.diffserv = want.diffserv && close s.upBps want.upBps && close s.downBps want.downBps

/-- Every piece of the desired state that a reading has is in it. -/
def converged (current : Option DesiredState) (desired : DesiredState) : Bool :=
  match current with
  | none => desired.shaping = [] && desired.routes = [] && desired.marks = []
  | some current =>
    let currentShaping : Keyed Shaping (·.ifname) := Keyed.ofList current.shaping
    desired.shaping.all (fun want => shapingConverged (currentShaping.get? want.ifname) want) &&
      desired.routes.all (fun r => r ∈ current.routes) &&
      desired.marks.all (fun m => m ∈ current.marks)

def applyCake (s : Shaping) : List Command := [.replaceCake s.ifname s.upBps s.diffserv]

def applyIngressShaping (s : Shaping) : List Command :=
  let ifb := ifbForIfname s.ifname
  [.addIfb ifb, .setUp ifb, .addIngress s.ifname, .replaceRedirect s.ifname ifb,
    .replaceCake ifb s.downBps s.diffserv]

def applyRoute (r : RouteRule) : List Command :=
  [.addRule r.fwmark r.table (10000 + r.fwmark), .replaceDefault r.ifname r.table]

namespace LinuxEnforcer

def nftRuleset (e : LinuxEnforcer) (lanOutMarks : List (String × Int)) : List (String × Int) :=
  (e.profiles.map fun p => (lanIfnameForProfile p e.lanMode e.baseInterface, p.vlan)) ++ lanOutMarks

def applyMarks (e : LinuxEnforcer) (lanOutMarks : List (String × Int)) : List Command :=
  [.replaceMarks (e.nftRuleset lanOutMarks)]

def apply (e : LinuxEnforcer) (desired : DesiredState) : List Command :=
  desired.shaping.flatMap (fun s => applyCake s ++ applyIngressShaping s) ++
    e.applyMarks desired.lanOutMarks ++ desired.routes.flatMap applyRoute

/-- The mutating commands one reconciliation issues. -/
def reconcile (e : LinuxEnforcer) (t : Tools) (k : Kernel) (desired : DesiredState) :
    Except UnreadableMark (List Command) :=
  (readActual t k).map fun current => if converged current desired then [] else e.apply desired

end LinuxEnforcer

end Wifucked
