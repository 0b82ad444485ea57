import Wifucked.Lib.Numerals
import Wifucked.Lib.Sha256
import Wifucked.Atomics.Model

/-!
# Stable identities

An identity is derived from what a connection is, never from the name of its
interface.
-/

namespace Wifucked

def hexPrefix (n digest : ℕ) : List Char :=
  (List.range n).map fun i => Nat.digitChar (digest / 16 ^ (63 - i) % 16)

namespace Identity

def safe (c : Char) : Bool := ('a' ≤ c && c ≤ 'z') || ('0' ≤ c && c ≤ '9')

/-- The two characters outside ASCII whose lower case starts inside it. -/
def lower (c : Char) : List Char :=
  if c = '\u212a' then ['k'] else if c = '\u0130' then ['i', '\u0307'] else [c.toLower]

/-- Each run of unsafe characters becomes one dash; `inRun` is inside one. -/
def dashes : Bool → List Char → List Char
  | _, [] => []
  | inRun, c :: cs =>
    if safe c then c :: dashes false cs
    else if inRun then dashes true cs
    else '-' :: dashes true cs

def slug (value : String) (limit : ℕ) : String :=
  let dashed := dashes false ((Numerals.strip value.toList).flatMap lower)
  let slug := ((dashed.dropWhile (· = '-')).reverse.dropWhile (· = '-')).reverse
  match slug.take limit with
  | [] => "unnamed"
  | cs => String.ofList cs

def digest (parts : List String) : String :=
  String.ofList (hexPrefix 10 (Sha256.ofString ("\x1f".intercalate parts)))

def oui (bssid : Option String) : String :=
  match bssid with
  | none => ""
  | some bssid =>
    let lowered := bssid.toList.flatMap lower
    let octets := (lowered.map fun c => if c = '-' then ':' else c).splitOn ':'
    if 3 ≤ octets.length then ":".intercalate ((octets.take 3).map String.ofList) else ""

def wifiId (ssid : String) (bssid : Option String) : String :=
  "wifi:" ++ slug ssid 24 ++ ":" ++ digest [ssid, oui bssid]

def usbId (kind : Kind) (vendor product : String) (serial portPath : Option String) : String :=
  let head := if kind = .usbTether then "usbtether" else "usbeth"
  match serial.filter (· ≠ "") with
  | some serial => head ++ ":" ++ digest [vendor, product, serial]
  | none => head ++ ":" ++ digest [vendor, product, (portPath.filter (· ≠ "")).getD "unknown-port"]

end Identity

end Wifucked
