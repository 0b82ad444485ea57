import Wifucked.Atomics.Identity

/-!
# What an identity tells apart

The fields that make an identity are put into one text, which is hashed. Where
the hash tells any two texts apart, so do the identities: two devices share one
exactly where their texts are the same.
-/

namespace Wifucked

structure UsbConnection where
  kind : Kind
  vendor : String
  product : String
  serial : Option String
  portPath : Option String
  usb : kind = .usbTether ∨ kind = .usbEthernet

namespace UsbConnection

def serialGiven (c : UsbConnection) : Option String := c.serial.filter (· ≠ "")

def port (c : UsbConnection) : Option String := c.portPath.filter (· ≠ "")

def serialOrPort (c : UsbConnection) : String :=
  c.serialGiven.getD (c.port.getD "unknown-port")

def parts (c : UsbConnection) : List String := [c.vendor, c.product, c.serialOrPort]

/-- One connection: of one kind and make, with one serial number, or with none in
one port. -/
def SameKey (a b : UsbConnection) : Prop :=
  a.kind = b.kind ∧ a.vendor = b.vendor ∧ a.product = b.product ∧
    (a.serialGiven.isSome ∧ a.serialGiven = b.serialGiven ∨
      a.serialGiven = none ∧ b.serialGiven = none ∧ a.port = b.port)

/-- The serial number of `a` is what stands in for that of `b`, or the port of `a`
is what stands in for that of `b`. -/
def Imitates (a b : UsbConnection) : Prop :=
  b.serialGiven = none ∧
    (a.serialGiven = some (b.port.getD "unknown-port") ∨
      a.serialGiven = none ∧ a.port = some "unknown-port" ∧ b.port = none)

instance (a b : UsbConnection) : Decidable (a.SameKey b) :=
  inferInstanceAs (Decidable (_ ∧ _ ∧ _ ∧ (_ ∨ _)))

instance (a b : UsbConnection) : Decidable (a.Imitates b) :=
  inferInstanceAs (Decidable (_ ∧ (_ ∨ _)))

end UsbConnection

namespace Identity

def joined (parts : List String) : String := "\x1f".intercalate parts

/-- One text, cut into its parts in two ways. -/
def Recut (parts parts' : List String) : Prop := parts ≠ parts' ∧ joined parts = joined parts'

instance (parts parts' : List String) : Decidable (Recut parts parts') :=
  inferInstanceAs (Decidable (_ ∧ _))

variable (hash : String → String)

def wifiIdWith (ssid : String) (bssid : Option String) : String :=
  "wifi:" ++ slug ssid 24 ++ ":" ++ hash (joined [ssid, oui bssid])

def usbIdWith (c : UsbConnection) : String :=
  (if c.kind = .usbTether then "usbtether" else "usbeth") ++ ":" ++ hash (joined c.parts)

def shaHash (text : String) : String := String.ofList (hexPrefix 10 (Sha256.ofString text))

theorem wifiId_eq (ssid : String) (bssid : Option String) :
    wifiId ssid bssid = wifiIdWith shaHash ssid bssid := rfl

theorem usbId_eq (c : UsbConnection) :
    usbId c.kind c.vendor c.product c.serial c.portPath = usbIdWith shaHash c := by
  unfold usbId usbIdWith UsbConnection.parts UsbConnection.serialOrPort UsbConnection.serialGiven
    UsbConnection.port
  cases c.serial.filter (· ≠ "") with
  | none => rfl
  | some serial => rfl

variable {hash}

-- ---------------------------------------------------------------------------
-- USB
-- ---------------------------------------------------------------------------

theorem usbIdWith_eq_iff (h : Function.Injective hash) (a b : UsbConnection) :
    usbIdWith hash a = usbIdWith hash b ↔ a.kind = b.kind ∧ joined a.parts = joined b.parts := by
  have heth : ∀ s t : String, "usbtether" ++ ":" ++ s ≠ "usbeth" ++ ":" ++ t := by
    intro s t hst
    have h4 := congrArg (fun text : String => text.toList[3]?) hst
    simp at h4
  unfold usbIdWith
  constructor
  · intro heq
    rcases a.usb with ha | ha <;> rcases b.usb with hb | hb <;> rw [ha, hb] at heq ⊢
    · exact ⟨rfl, h (by simpa using heq)⟩
    · exact absurd heq (heth _ _)
    · exact absurd heq.symm (heth _ _)
    · exact ⟨rfl, h (by simpa using heq)⟩
  · rintro ⟨hkind, hjoined⟩
    rw [hkind, hjoined]

theorem serialOrPort_eq {a b : UsbConnection} (h : a.SameKey b ∨ a.Imitates b) :
    a.serialOrPort = b.serialOrPort := by
  unfold UsbConnection.serialOrPort
  rcases h with ⟨-, -, -, ⟨hsome, hserial⟩ | ⟨ha, hb, hport⟩⟩ | ⟨hb, ha | ⟨ha, hport, hnone⟩⟩
  · obtain ⟨s, hs⟩ := Option.isSome_iff_exists.mp hsome
    rw [← hserial, hs, Option.getD_some, Option.getD_some]
  · rw [ha, hb, hport]
  · rw [ha, hb, Option.getD_some, Option.getD_none]
  · rw [ha, hb, hport, hnone, Option.getD_none, Option.getD_none, Option.getD_some,
      Option.getD_none]

theorem parts_eq {a b : UsbConnection} (hvendor : a.vendor = b.vendor)
    (hproduct : a.product = b.product) (h : a.SameKey b ∨ a.Imitates b) : a.parts = b.parts := by
  rw [UsbConnection.parts, UsbConnection.parts, hvendor, hproduct, serialOrPort_eq h]

/-- Where one text stands for both, they are one connection or one imitates the other. -/
theorem sameKey_iff {a b : UsbConnection} (hkind : a.kind = b.kind) (hvendor : a.vendor = b.vendor)
    (hproduct : a.product = b.product) (h : a.serialOrPort = b.serialOrPort) :
    a.SameKey b ↔ ¬a.Imitates b ∧ ¬b.Imitates a := by
  unfold UsbConnection.serialOrPort at h
  unfold UsbConnection.SameKey UsbConnection.Imitates
  cases ha : a.serialGiven with
  | some s =>
    cases hb : b.serialGiven with
    | some t =>
      rw [ha, hb, Option.getD_some, Option.getD_some] at h
      simp [hkind, hvendor, hproduct, h]
    | none =>
      rw [ha, hb, Option.getD_some, Option.getD_none] at h
      simp [h]
  | none =>
    cases hb : b.serialGiven with
    | some t =>
      rw [ha, hb, Option.getD_none, Option.getD_some] at h
      simp [h]
    | none =>
      rw [ha, hb, Option.getD_none, Option.getD_none] at h
      cases hpa : a.port with
      | some x =>
        cases hpb : b.port with
        | some y =>
          rw [hpa, hpb, Option.getD_some, Option.getD_some] at h
          simp [hkind, hvendor, hproduct, h]
        | none =>
          rw [hpa, hpb, Option.getD_some, Option.getD_none] at h
          simp [h]
      | none =>
        cases hpb : b.port with
        | some y =>
          rw [hpa, hpb, Option.getD_none, Option.getD_some] at h
          simp [← h]
        | none => simp [hkind, hvendor, hproduct]

/-- Two devices of one kind whose texts are cut in one way, and neither imitates
the other if they are of one make. -/
def Unmistakable (a b : UsbConnection) : Prop :=
  a.kind = b.kind → ¬Recut a.parts b.parts ∧
    (a.vendor = b.vendor → a.product = b.product → ¬a.Imitates b ∧ ¬b.Imitates a)

theorem usbIdWith_exact_iff (h : Function.Injective hash) (a b : UsbConnection) :
    (usbIdWith hash a = usbIdWith hash b ↔ a.SameKey b) ↔ Unmistakable a b := by
  rw [usbIdWith_eq_iff h]
  by_cases hkind : a.kind = b.kind
  · rw [Unmistakable, and_iff_right hkind, imp_iff_right hkind]
    have hparts : a.SameKey b → a.parts = b.parts :=
      fun hsame => parts_eq hsame.2.1 hsame.2.2.1 (.inl hsame)
    by_cases heq : a.parts = b.parts
    · obtain ⟨hvendor, hproduct, hserial⟩ : a.vendor = b.vendor ∧ a.product = b.product ∧
          a.serialOrPort = b.serialOrPort := by simpa [UsbConnection.parts] using heq
      rw [imp_iff_right hvendor, imp_iff_right hproduct,
        ← sameKey_iff hkind hvendor hproduct hserial]
      simp [heq, Recut]
    · by_cases hjoined : joined a.parts = joined b.parts
      · refine iff_of_false (fun hiff => heq (hparts (hiff.mp hjoined))) ?_
        exact fun hclear => hclear.1 ⟨heq, hjoined⟩
      · refine iff_of_true (iff_of_false hjoined fun hsame => hjoined (by rw [hparts hsame])) ?_
        refine ⟨fun hrecut => hjoined hrecut.2, fun hvendor hproduct => ?_⟩
        constructor
        · intro himitates
          exact heq (parts_eq hvendor hproduct (.inr himitates))
        · intro himitates
          exact heq (parts_eq hvendor.symm hproduct.symm (.inr himitates)).symm
  · exact iff_of_true (iff_of_false (fun hboth => hkind hboth.1) fun hsame => hkind hsame.1)
      fun h => absurd h hkind

-- ---------------------------------------------------------------------------
-- Wi-Fi
-- ---------------------------------------------------------------------------

theorem mem_dashes {inRun : Bool} (h : c ∈ dashes inRun cs) : safe c ∨ c = '-' := by
  induction cs generalizing inRun with
  | nil => cases h
  | cons d cs ih =>
    rw [dashes] at h
    split at h
    · rename_i hd
      rcases List.mem_cons.mp h with rfl | h
      · exact .inl hd
      · exact ih h
    · split at h
      · exact ih h
      · rcases List.mem_cons.mp h with rfl | h
        · exact .inr rfl
        · exact ih h

theorem colon_not_mem_slug (value : String) (limit : ℕ) : ':' ∉ (slug value limit).toList := by
  intro h
  unfold slug at h
  extract_lets dashed trimmed at h
  split at h
  · revert h
    decide
  · rename_i hcs
    rw [String.toList_ofList] at h
    have hmem : ':' ∈ dashed := by
      have htrimmed := List.mem_of_mem_take h
      simp only [trimmed, List.mem_reverse] at htrimmed
      exact (List.dropWhile_suffix _).subset
        (List.mem_reverse.mp ((List.dropWhile_suffix _).subset htrimmed))
    rcases mem_dashes hmem with hsafe | hdash
    · revert hsafe
      decide
    · cases hdash

theorem wifiIdWith_eq_iff (h : Function.Injective hash) (ssid ssid' : String)
    (bssid bssid' : Option String) :
    wifiIdWith hash ssid bssid = wifiIdWith hash ssid' bssid' ↔
      slug ssid 24 = slug ssid' 24 ∧ joined [ssid, oui bssid] = joined [ssid', oui bssid'] := by
  have hcolon : ∀ s t : String, (s ++ (":" ++ t)).toList = s.toList ++ ':' :: t.toList := by
    intro s t
    rw [String.toList_append, String.toList_append]
    rfl
  rw [wifiIdWith, wifiIdWith, String.append_assoc, String.append_assoc, String.append_assoc,
    String.append_assoc, String.append_right_inj, ← String.toList_inj, hcolon, hcolon,
    Scan.append_cons_inj (colon_not_mem_slug ssid 24) (colon_not_mem_slug ssid' 24),
    String.toList_inj, String.toList_inj, h.eq_iff]

theorem wifiIdWith_exact_iff (h : Function.Injective hash) (ssid ssid' : String)
    (bssid bssid' : Option String) :
    (wifiIdWith hash ssid bssid = wifiIdWith hash ssid' bssid' ↔
        ssid = ssid' ∧ oui bssid = oui bssid') ↔
      (slug ssid 24 = slug ssid' 24 → ¬Recut [ssid, oui bssid] [ssid', oui bssid']) := by
  rw [wifiIdWith_eq_iff h]
  by_cases hparts : ssid = ssid' ∧ oui bssid = oui bssid'
  · obtain ⟨rfl, houi⟩ := hparts
    simp [houi, Recut]
  · have hne : [ssid, oui bssid] ≠ [ssid', oui bssid'] := by simpa using hparts
    simp [hparts, Recut, hne]

theorem toList_joined (s t : String) : (joined [s, t]).toList = s.toList ++ '\x1f' :: t.toList := by
  rw [joined, String.intercalate_cons_cons, String.intercalate_singleton, String.toList_append,
    String.toList_append]
  simp

/-- A vendor prefix in which no separator is cuts the text in one way, whatever the
network is called. -/
theorem not_recut_wifi {ssid ssid' o o' : String} (ho : '\x1f' ∉ o.toList)
    (ho' : '\x1f' ∉ o'.toList) : ¬Recut [ssid, o] [ssid', o'] := by
  rintro ⟨hne, hjoined⟩
  have h := congrArg (fun text : String => text.toList.reverse) hjoined
  simp only [toList_joined, List.reverse_append, List.reverse_cons, List.append_assoc,
    List.singleton_append] at h
  obtain ⟨hleft, hssid⟩ := (Scan.append_cons_inj (by simpa using ho) (by simpa using ho')).mp h
  rw [String.toList_inj.mp (List.reverse_injective hssid),
    String.toList_inj.mp (List.reverse_injective hleft)] at hne
  exact hne rfl

theorem wifiIdWith_exact (h : Function.Injective hash) {ssid ssid' : String}
    {bssid bssid' : Option String} (ho : '\x1f' ∉ (oui bssid).toList)
    (ho' : '\x1f' ∉ (oui bssid').toList) :
    wifiIdWith hash ssid bssid = wifiIdWith hash ssid' bssid' ↔
      ssid = ssid' ∧ oui bssid = oui bssid' :=
  (wifiIdWith_exact_iff h ssid ssid' bssid bssid').mpr fun _ => not_recut_wifi ho ho'

/-- The identities of USB devices and of access points are the keys of theirs
exactly where no two texts are cut from one in two ways, and no serial number or
port passes for another's. -/
theorem ids_exact_iff (hash : String → String) (h : Function.Injective hash) :
    (∀ a b : UsbConnection,
      (usbIdWith hash a = usbIdWith hash b ↔ a.SameKey b) ↔ Unmistakable a b) ∧
    ∀ (ssid ssid' : String) (bssid bssid' : Option String),
      (wifiIdWith hash ssid bssid = wifiIdWith hash ssid' bssid' ↔
          ssid = ssid' ∧ oui bssid = oui bssid') ↔
        (slug ssid 24 = slug ssid' 24 → ¬Recut [ssid, oui bssid] [ssid', oui bssid']) :=
  ⟨usbIdWith_exact_iff h,
    fun ssid ssid' bssid bssid' => wifiIdWith_exact_iff h ssid ssid' bssid bssid'⟩

def phone (serial portPath : Option String) : UsbConnection where
  kind := .usbTether
  vendor := "05ac"
  product := "12a8"
  serial := serial
  portPath := portPath
  usb := .inl rfl

theorem two_phones :
    (usbIdWith id (phone (some "PHONE001") (some "1-1")) =
        usbIdWith id (phone (some "PHONE002") (some "1-1")) ↔
      (phone (some "PHONE001") (some "1-1")).SameKey (phone (some "PHONE002") (some "1-1"))) :=
  ((ids_exact_iff id Function.injective_id).1 _ _).mpr fun _ => by decide

/-- A phone whose serial number is the port of one that has none. -/
theorem phone_imitates :
    usbId .usbTether "05ac" "12a8" (some "1-1") (some "2-4") =
        usbId .usbTether "05ac" "12a8" none (some "1-1") ∧
      ¬(phone (some "1-1") (some "2-4")).SameKey (phone none (some "1-1")) :=
  ⟨rfl, by decide⟩

end Identity

end Wifucked
