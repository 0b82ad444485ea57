import Wifucked.Lib.Dotted
import Wifucked.Atomics.Identity
import Wifucked.Lan

/-!
# The configuration of the LAN

What first boot writes for hostapd, dnsmasq and networkd, all of it derived from
the device's serial number and the settings of the LAN.
-/

namespace Wifucked

structure LanConfig where
  /-- The network's name where there is one network for all. -/
  ssid : String
  criticalSsid : String
  besteffortSsid : String
  address : String
  prefixLen : ℕ
  lanMode : String
  openOnFirstBoot : Bool

def LanConfig.default : LanConfig where
  ssid := "Stable_wifi"
  criticalSsid := "Stable_critical"
  besteffortSsid := "Stable_besteffort"
  address := "10.44.0.1"
  prefixLen := 24
  lanMode := "single"
  openOnFirstBoot := true

-- ---------------------------------------------------------------------------
-- Identity
-- ---------------------------------------------------------------------------

structure LanIdentity where
  ssid : String
  criticalSsid : String
  besteffortSsid : String
  bssid : String
  passphrase : String
  criticalPassphrase : String
  deriving DecidableEq, Repr

/-- Without the characters that are ambiguous in print. -/
def passphraseAlphabet : List Char := "abcdefghjkmnpqrstuvwxyz23456789".toList

def passphrase (seed salt : String) : String :=
  let digest := Sha256.toBytes 32 (Sha256.ofString (seed ++ ":" ++ salt))
  .ofList ((digest.take 16).map fun b => passphraseAlphabet.getD (b % 31) 'a')

def deriveIdentity (serial : String) (config : LanConfig) : LanIdentity :=
  let seed := hexPrefix 64 (Sha256.ofString ("wifucked:" ++ serial))
  let suffix := String.ofList ((seed.take 4).map Char.toUpper)
  let octets := "02" :: [4, 6, 8, 10, 12].map fun i => String.ofList ((seed.drop i).take 2)
  { ssid := config.ssid ++ "-" ++ suffix
    criticalSsid := config.criticalSsid ++ "-" ++ suffix
    besteffortSsid := config.besteffortSsid ++ "-" ++ suffix
    bssid := ":".intercalate octets
    passphrase := passphrase (String.ofList seed) "besteffort"
    criticalPassphrase := passphrase (String.ofList seed) "critical" }

-- ---------------------------------------------------------------------------
-- The access point
-- ---------------------------------------------------------------------------

def hostapdConfig (identity : LanIdentity) (channel : ℕ) (mode interface : String)
    (openNetwork : Bool) : String :=
  let base :=
    "# Generated at first boot. SSID and BSSID are immutable (ADR-012).\n" ++
    "interface=" ++ interface ++ "\n" ++
    "driver=nl80211\n" ++
    "country_code=GB\n" ++
    "hw_mode=g\n" ++
    "channel=" ++ toString channel ++ "\n" ++
    "ieee80211n=1\n" ++
    "wmm_enabled=1\n" ++
    "auth_algs=1\n" ++
    "ctrl_interface=/var/run/hostapd\n"
  let wpa := "wpa=2\n" ++ "wpa_key_mgmt=WPA-PSK\n" ++ "rsn_pairwise=CCMP\n"
  if mode = "single" then
    let bss := "ssid=" ++ identity.ssid ++ "\n" ++ "bssid=" ++ identity.bssid ++ "\n"
    if openNetwork then base ++ bss
    else base ++ wpa ++ bss ++ "wpa_passphrase=" ++ identity.passphrase ++ "\n"
  else
    let bss := "ssid=" ++ identity.besteffortSsid ++ "\n" ++ "bssid=" ++ identity.bssid ++ "\n"
    if mode = "two_psk" then
      base ++ wpa ++ bss ++
        "wpa_psk_file=/etc/hostapd/wpa_psk\n" ++
        "vlan_file=/etc/hostapd/hostapd.vlan\n" ++
        "dynamic_vlan=1\n"
    else
      base ++ wpa ++ bss ++
        "wpa_passphrase=" ++ identity.passphrase ++ "\n" ++
        "vlan_id=" ++ toString bestEffort.vlan ++ "\n" ++
        "\n" ++
        "bss=" ++ interface ++ "_1\n" ++
        "ssid=" ++ identity.criticalSsid ++ "\n" ++
        wpa ++
        "wpa_passphrase=" ++ identity.criticalPassphrase ++ "\n" ++
        "vlan_id=" ++ toString critical.vlan ++ "\n"

-- ---------------------------------------------------------------------------
-- Addresses
-- ---------------------------------------------------------------------------

/-- An address that is not one raises an error of one of two kinds. -/
inductive AddressError where
  | indexError
  | valueError
  deriving DecidableEq, Repr

def parseOctet (octet : List Char) : Option ℤ := Numerals.shortInt octet

/-- The first three octets of the profile at this place. -/
def lanSubnet (address : String) (index : ℕ) : Except AddressError String :=
  match Dotted.parts address with
  | first :: second :: third :: _ =>
    match parseOctet third with
    | none => .error .valueError
    | some third =>
      .ok (String.ofList first ++ "." ++ String.ofList second ++ "." ++ toString (third + index))
  | _ => .error .indexError

def dnsmasqRange (profile : ServiceProfile) (subnet : String) : String :=
  "dhcp-range=set:" ++ profile.ssidSuffix ++ "," ++ subnet ++ ".50," ++ subnet ++
    ".200,255.255.255.0,12h\n" ++
  "dhcp-option=tag:" ++ profile.ssidSuffix ++ ",3," ++ subnet ++ ".1\n"

def dnsmasqRanges (address : String) : ℕ → List ServiceProfile → Except AddressError String
  | _, [] => .ok ""
  | index, profile :: profiles =>
    match lanSubnet address index with
    | .error e => .error e
    | .ok subnet =>
      (dnsmasqRanges address (index + 1) profiles).map (dnsmasqRange profile subnet ++ ·)

def dnsmasqConfig (config : LanConfig) (profiles : List ServiceProfile) :
    Except AddressError String :=
  (dnsmasqRanges config.address 0 profiles).map fun ranges =>
    "# Generated at first boot.\n" ++
    "bind-interfaces\n" ++
    "domain-needed\n" ++
    "bogus-priv\n" ++
    "address=/#/" ++ config.address ++ "\n" ++
    "no-resolv\n" ++
    "server=1.1.1.1\n" ++
    "server=8.8.8.8\n" ++ ranges

def networkdUnitName (profile : ServiceProfile) : String :=
  "10-wifucked-" ++ profile.ssidSuffix ++ ".network"

/-- `index` is the profile's place among the profiles. -/
def networkdConfig (config : LanConfig) (profile : ServiceProfile) (index : ℕ)
    (lanMode baseInterface : String) : Except AddressError String :=
  (lanSubnet config.address index).map fun subnet =>
    "# Generated at first boot. Static gateway address for the " ++ profile.name ++ "\n" ++
    "# VLAN subinterface (ADR-011: independent of the daemon, matched by name).\n" ++
    "[Match]\n" ++
    "Name=" ++ lanIfnameForProfile profile lanMode baseInterface ++ "\n" ++
    "\n" ++
    "[Network]\n" ++
    "Address=" ++ subnet ++ ".1/" ++ toString config.prefixLen ++ "\n" ++
    "DHCP=no\n" ++
    "IPv6AcceptRA=no\n" ++
    "LinkLocalAddressing=no\n" ++
    "ConfigureWithoutCarrier=yes\n"

end Wifucked
