import Wifucked.Lib.Runs
import Wifucked.Enforce.Render

/-!
# The kernel behind tc, nft and ip

What is installed, what each command of the enforcer changes of it, and what
the tools report. A `replace` takes the place of what was there; an `add`
of what is there already fails and changes nothing.
-/

namespace Wifucked

/-- A value of the JSON the tools print. Lists and objects are all alike to
the readers here, and nothing they read is a fraction. -/
inductive Json where
  | null
  | bool (b : Bool)
  | int (i : Int)
  | str (s : String)
  | composite
  deriving DecidableEq, Repr

structure Link where
  name : String
  up : Bool
  deriving DecidableEq, Repr

structure Qdisc where
  dev : String
  kind : String
  /-- `none` where the rate is unlimited, or the kind has none. -/
  bandwidth : Option Int
  diffserv : String
  deriving DecidableEq, Repr

/-- A filter of the ingress qdisc that sends everything to another device. -/
structure TcFilter where
  dev : String
  prio : Nat
  redirect : String
  deriving DecidableEq, Repr

inductive NftOperand where
  | metaKey (key : String)
  | other
  deriving DecidableEq, Repr

inductive NftExpr where
  | matching (op : String) (left : NftOperand) (right : Json)
  | mangle (key : NftOperand) (value : Json)
  | other
  deriving DecidableEq, Repr

structure NftRule where
  family : String
  table : String
  chain : String
  expr : List NftExpr
  deriving DecidableEq, Repr

structure IpRule where
  priority : Int
  fwmark : Option Int
  table : Int
  /-- Further conditions, such as a source or a mask. -/
  selectors : List String
  deriving DecidableEq, Repr

structure Route where
  table : Int
  dst : String
  /-- `none` for a route over several next hops. -/
  dev : Option String
  metric : Nat
  deriving DecidableEq, Repr

structure Kernel where
  links : List Link
  qdiscs : List Qdisc
  filters : List TcFilter
  nft : List NftRule
  ipRules : List IpRule
  /-- In the order they are listed. -/
  routes : List Route
  deriving DecidableEq, Repr

-- ---------------------------------------------------------------------------
-- Commands
-- ---------------------------------------------------------------------------

def markTable : String := "wifucked"

def markChain : String := "lan_mark"

def redirectPrio : Nat := 10

inductive Command where
  /-- `tc qdisc replace dev <dev> root cake bandwidth <bps>bit <diffserv>`. -/
  | replaceCake (dev : String) (bps : Int) (diffserv : String)
  /-- `ip link add <name> type ifb`. -/
  | addIfb (name : String)
  /-- `ip link set dev <name> up`. -/
  | setUp (name : String)
  /-- `tc qdisc add dev <dev> handle ffff: ingress`. -/
  | addIngress (dev : String)
  /-- `tc filter replace dev <dev> parent ffff: protocol all prio 10 u32
  match u32 0 0 action mirred egress redirect dev <ifb>`. -/
  | replaceRedirect (dev ifb : String)
  /-- `nft -f -`: the mark table declared, flushed, and filled with one rule
  for each interface and its mark. -/
  | replaceMarks (marks : List (String × Int))
  /-- `ip rule add fwmark <fwmark> lookup <table> priority <priority>`. -/
  | addRule (fwmark table priority : Int)
  /-- `ip route replace default dev <ifname> table <table>`. -/
  | replaceDefault (ifname : String) (table : Int)
  deriving DecidableEq, Repr

def markRule (ifname : String) (mark : Int) : NftRule where
  family := "inet"
  table := markTable
  chain := markChain
  expr := [.matching "==" (.metaKey "iifname") (.str ifname), .mangle (.metaKey "mark") (.int mark)]

/-- A bandwidth of nothing is no limit. -/
def cake (dev : String) (bps : Int) (diffserv : String) : Qdisc :=
  ⟨dev, "cake", if bps = 0 then none else some bps, diffserv⟩

def Qdisc.ingress (dev : String) : Qdisc := ⟨dev, "ingress", none, ""⟩

/-- Whether a qdisc hangs under the root of its device, and goes with it. -/
def Qdisc.atRoot (q : Qdisc) : Bool := q.kind ≠ "ingress" && q.kind ≠ "clsact"

theorem Qdisc.atRoot_of_cake {q : Qdisc} (h : q.kind = "cake") : q.atRoot = true := by
  simp [atRoot, h]

namespace Kernel

def exec (k : Kernel) : Command → Kernel
  | .replaceCake dev bps diffserv =>
    { k with
      qdiscs := k.qdiscs.filter (fun q => ¬(q.dev = dev ∧ q.atRoot)) ++ [cake dev bps diffserv] }
  | .addIfb name =>
    if ∃ l ∈ k.links, l.name = name then k else { k with links := k.links ++ [⟨name, false⟩] }
  | .setUp name =>
    { k with links := k.links.map fun l => if l.name = name then { l with up := true } else l }
  | .addIngress dev =>
    if Qdisc.ingress dev ∈ k.qdiscs then k
    else { k with qdiscs := k.qdiscs ++ [Qdisc.ingress dev] }
  | .replaceRedirect dev ifb =>
    { k with
      filters := k.filters.filter (fun f => ¬(f.dev = dev ∧ f.prio = redirectPrio)) ++
        [⟨dev, redirectPrio, ifb⟩] }
  | .replaceMarks marks =>
    { k with
      nft := k.nft.filter (fun r => ¬(r.family = "inet" ∧ r.table = markTable)) ++
        marks.map fun m => markRule m.1 m.2 }
  | .addRule fwmark table priority =>
    let rule : IpRule := ⟨priority, some fwmark, table, []⟩
    if rule ∈ k.ipRules then k else { k with ipRules := k.ipRules ++ [rule] }
  | .replaceDefault ifname table =>
    { k with
      routes := ⟨table, "default", some ifname, 0⟩ ::
        k.routes.filter fun r => ¬(r.table = table ∧ r.dst = "default" ∧ r.metric = 0) }

def run (k : Kernel) (cmds : List Command) : Kernel := Runs.exec exec k cmds

-- ---------------------------------------------------------------------------
-- What is installed
-- ---------------------------------------------------------------------------

def cakesOn (k : Kernel) (dev : String) : List Qdisc :=
  k.qdiscs.filter fun q => q.dev = dev ∧ q.kind = "cake"

def defaultDev (k : Kernel) (table : Int) : Option String :=
  ((k.routes.filter (·.table = table)).find? (·.dst = "default")).bind (·.dev)

def writesCake (dev : String) : Command → Option (List Qdisc)
  | .replaceCake dev' bps diffserv => if dev' = dev then some [cake dev bps diffserv] else none
  | _ => none

def writesDefault (table : Int) : Command → Option (Option String)
  | .replaceDefault ifname table' => if table' = table then some (some ifname) else none
  | _ => none

theorem cakesOn_exec (k : Kernel) (c : Command) (dev : String) :
    (k.exec c).cakesOn dev = (writesCake dev c).getD (k.cakesOn dev) := by
  cases c with
  | replaceCake dev' bps diffserv =>
    simp only [exec, cakesOn, writesCake, List.filter_append, List.filter_filter]
    by_cases h : dev' = dev
    · subst h
      have hgone : k.qdiscs.filter (fun q => decide (q.dev = dev' ∧ q.kind = "cake") &&
          decide ¬(q.dev = dev' ∧ q.atRoot = true)) = [] := by
        rw [List.filter_eq_nil_iff]
        intro q _ hq
        simp only [Bool.and_eq_true, decide_eq_true_eq] at hq
        exact hq.2 ⟨hq.1.1, Qdisc.atRoot_of_cake hq.1.2⟩
      rw [hgone]
      simp [cake]
    · have hkept : k.qdiscs.filter (fun q => decide (q.dev = dev ∧ q.kind = "cake") &&
          decide ¬(q.dev = dev' ∧ q.atRoot = true)) =
            k.qdiscs.filter fun q => q.dev = dev ∧ q.kind = "cake" := by
        refine List.filter_congr fun q _ => ?_
        by_cases hdev : q.dev = dev
        · simp [hdev, Ne.symm h]
        · simp [hdev]
      rw [hkept]
      simp [h, cake]
  | addIngress dev' =>
    simp only [exec, writesCake, Option.getD_none]
    split
    · rfl
    · simp [cakesOn, Qdisc.ingress]
  | addIfb name => simp only [exec, writesCake, Option.getD_none]; split <;> rfl
  | addRule fwmark table priority => simp only [exec, writesCake, Option.getD_none]; split <;> rfl
  | _ => rfl

theorem defaultDev_exec (k : Kernel) (c : Command) (table : Int) :
    (k.exec c).defaultDev table = (writesDefault table c).getD (k.defaultDev table) := by
  cases c with
  | replaceDefault ifname table' =>
    simp only [exec, defaultDev, writesDefault]
    by_cases h : table' = table
    · simp [h]
    · have hkept : (k.routes.filter fun r => ¬(r.table = table' ∧ r.dst = "default" ∧
          r.metric = 0)).filter (·.table = table) = k.routes.filter (·.table = table) := by
        rw [List.filter_filter]
        refine List.filter_congr fun r _ => ?_
        by_cases hr : r.table = table
        · simp [hr, Ne.symm h]
        · simp [hr]
      simp only [h, if_false, Option.getD_none, List.filter_cons, decide_false, Bool.false_eq_true,
        hkept]
  | addIngress dev => simp only [exec, writesDefault, Option.getD_none]; split <;> rfl
  | addIfb name => simp only [exec, writesDefault, Option.getD_none]; split <;> rfl
  | addRule fwmark table' priority =>
    simp only [exec, writesDefault, Option.getD_none]
    split <;> rfl
  | _ => rfl

end Kernel

-- ---------------------------------------------------------------------------
-- Reading it back
-- ---------------------------------------------------------------------------

inductive Read where
  /-- `tc -j qdisc show`. -/
  | qdiscs
  /-- `nft -j list ruleset`. -/
  | ruleset
  /-- `ip -j rule show`. -/
  | rules
  /-- `ip -j route show table <table>`. -/
  | routes (table : Int)
  deriving DecidableEq, Repr

/-- How the tools print numbers, and which reads give nothing that can be parsed. -/
structure Tools where
  fails : Read → Bool
  bandwidth : Int → Json
  fwmark : Int → Json
  table : Int → Json

structure QdiscEntry where
  kind : String
  dev : String
  bandwidth : Json
  diffserv : Option String

structure RuleEntry where
  fwmark : Json
  table : Json

namespace Tools

def qdiscEntry (t : Tools) (q : Qdisc) : QdiscEntry :=
  ⟨q.kind, q.dev, q.bandwidth.elim (.str "unlimited") t.bandwidth, some q.diffserv⟩

def qdiscShow (t : Tools) (k : Kernel) : Option (List QdiscEntry) :=
  if t.fails .qdiscs then none else some (k.qdiscs.map t.qdiscEntry)

/-- Only the rules of the ruleset are kept. -/
def listRuleset (t : Tools) (k : Kernel) : Option (List NftRule) :=
  if t.fails .ruleset then none else some k.nft

def ruleEntry (t : Tools) (r : IpRule) : RuleEntry :=
  ⟨r.fwmark.elim .null t.fwmark, t.table r.table⟩

def ruleShow (t : Tools) (k : Kernel) : Option (List RuleEntry) :=
  if t.fails .rules then none else some (k.ipRules.map t.ruleEntry)

def routeShow (t : Tools) (k : Kernel) (table : Int) : Option (List Route) :=
  if t.fails (.routes table) then none else some (k.routes.filter (·.table = table))

end Tools

end Wifucked
