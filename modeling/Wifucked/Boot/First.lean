import Wifucked.Lib.Disk
import Wifucked.Lan.Config

/-!
# First boot

The script that derives the device's identity and makes its keys, each run of
which a power cut may end anywhere. What it writes it writes again until it has
once come to its end, save for the keys: a file of the private key, whatever is in
it, is taken for one.
-/

namespace Wifucked.FirstBoot

inductive Path where
  | hostapd
  | dnsmasq
  | networkd (unit : String)
  | label
  | privatekey
  | publickey
  /-- `.identity-generated`. -/
  | sentinel
  deriving DecidableEq, Repr

structure Device where
  cpuSerial : String
  machineId : String
  pubkey : String → String
  pubkey_ne : ∀ key, pubkey key ≠ ""

def Device.serial (device : Device) : String :=
  if device.cpuSerial = "" then device.machineId else device.cpuSerial

def Device.identity (device : Device) : LanIdentity := deriveIdentity device.serial .default

def label (identity : LanIdentity) : String :=
  "WI-FUCKED -> BALANCED\n" ++
  "\n" ++
  "  " ++ identity.ssid ++ "\n" ++
  "      open network — no password, connect and go (ADR-021)\n" ++
  "\n" ++
  "  dashboard: http://wifucked.local  or  http://10.44.0.1\n" ++
  "\n" ++
  "To secure this network, set the passphrase below in /etc/hostapd/hostapd.conf\n" ++
  "and restart hostapd. It never changes once set, so every device stays joined:\n" ++
  "\n" ++
  "      passphrase: " ++ identity.passphrase ++ "\n" ++
  "\n" ++
  "Factory reset: power-cycle three times within 60 seconds of boot.\n" ++
  "This resets your Internet connections only. Your network and password\n" ++
  "never change.\n"

def lanMode : String := "single"

def channel : ℕ := 6

def hostapdText (device : Device) : String :=
  hostapdConfig device.identity channel lanMode "wlan0" LanConfig.default.openOnFirstBoot

def dnsmasqText : Except AddressError String := dnsmasqConfig .default (profilesForLanMode lanMode)

def networkdFile (profile : ServiceProfile × ℕ) : Except AddressError (Path × String) :=
  (networkdConfig .default profile.1 profile.2 lanMode "wlan0").map fun text =>
    (.networkd (networkdUnitName profile.1), text)

def identityFiles (device : Device) : Except AddressError (List (Path × String)) := do
  let dnsmasq ← dnsmasqText
  let units ← (profilesForLanMode lanMode).zipIdx.mapM networkdFile
  return (.hostapd, hostapdText device) :: (.dnsmasq, dnsmasq) :: units ++
    [(.label, label device.identity)]

/-- A file is opened empty before its text is in it. -/
def writeText (file : Path × String) : List (Disk.Op Path) :=
  [.write file.1 "", .write file.1 file.2]

/-- How far the parts of the pipeline that makes the keys are when the file of the
public key is opened; what is in that comes last in any case. -/
inductive Order where
  | publicFirst
  | privateFirst
  | privateWritten
  deriving DecidableEq, Repr

/-- `wg genkey | tee privatekey | wg pubkey > publickey`. -/
def keygen (device : Device) (order : Order) (key : String) : List (Disk.Op Path) :=
  match order with
  | .publicFirst =>
    [.write .publickey "", .write .privatekey "", .write .privatekey key,
      .write .publickey (device.pubkey key)]
  | .privateFirst =>
    [.write .privatekey "", .write .publickey "", .write .privatekey key,
      .write .publickey (device.pubkey key)]
  | .privateWritten =>
    [.write .privatekey "", .write .privatekey key, .write .publickey "",
      .write .publickey (device.pubkey key)]

/-- A boot that makes this key if it makes one, and is cut after so many operations. -/
structure Boot where
  key : String
  key_ne : key ≠ ""
  order : Order
  done : ℕ

def script (device : Device) (d : Disk Path) (boot : Boot) : List (Disk.Op Path) :=
  if (d .sentinel).isSome then []
  else
    match identityFiles device with
    | .error _ => []
    | .ok files =>
      files.flatMap writeText ++
        (if (d .privatekey).isSome then [] else keygen device boot.order boot.key) ++
        [.write .sentinel ""]

def done (device : Device) (d : Disk Path) (boot : Boot) : List (Disk.Op Path) :=
  (script device d boot).take boot.done

def step (device : Device) (d : Disk Path) (boot : Boot) : Disk Path :=
  d.run (done device d boot)

/-- The boot makes a file for the private key and does not get to the end of the
public one. -/
def CutBetween (device : Device) (d : Disk Path) (boot : Boot) : Prop :=
  .write .privatekey "" ∈ done device d boot ∧
    .write .publickey (device.pubkey boot.key) ∉ done device d boot

instance (device : Device) (d : Disk Path) (boot : Boot) : Decidable (CutBetween device d boot) :=
  inferInstanceAs (Decidable (_ ∧ _))

structure Keys (device : Device) (d : Disk Path) : Prop where
  pair : ∃ key, key ≠ "" ∧ d .privatekey = some key ∧ d .publickey = some (device.pubkey key)

structure Files (device : Device) (d : Disk Path) : Prop where
  hostapd : d .hostapd = some (hostapdText device)
  dnsmasq : ∃ text, dnsmasqText = .ok text ∧ d .dnsmasq = some text
  networkd : ∀ profile ∈ (profilesForLanMode lanMode).zipIdx, ∃ text,
    networkdFile profile = .ok (.networkd (networkdUnitName profile.1), text) ∧
      d (.networkd (networkdUnitName profile.1)) = some text

/-- No key has been begun on, save that the file of the public one may be open. -/
structure Unkeyed (d : Disk Path) : Prop where
  privatekey : d .privatekey = none
  publickey : d .publickey = none ∨ d .publickey = some ""

variable {device : Device} {d : Disk Path} {boot : Boot}

-- ---------------------------------------------------------------------------
-- The keys
-- ---------------------------------------------------------------------------

theorem keys_congr {d' : Disk Path} (hprivate : d' .privatekey = d .privatekey)
    (hpublic : d' .publickey = d .publickey) (h : Keys device d) : Keys device d' := by
  obtain ⟨key, hne, hkey, hpub⟩ := h
  exact ⟨key, hne, hprivate.trans hkey, hpublic.trans hpub⟩

theorem Keys.keyed (h : Keys device d) : (d .privatekey).isSome := by
  obtain ⟨key, -, hkey, -⟩ := h
  simp [hkey]

theorem not_keys_of_empty
    (h : d .privatekey = some "" ∨ d .publickey = none ∨ d .publickey = some "") :
    ¬Keys device d := by
  rintro ⟨key, hne, hkey, hpub⟩
  rcases h with h | h | h
  · exact hne (by simpa [hkey] using h)
  · simp [hpub] at h
  · exact device.pubkey_ne key (by simpa [hpub] using h)

/-- Where the pipeline is cut in between, a file is left that is taken for a key. -/
theorem keygen_cut (hd : Unkeyed d) (order : Order) (key : String) (n : ℕ)
    (hcreated : .write .privatekey "" ∈ (keygen device order key).take n)
    (hfilled : .write .publickey (device.pubkey key) ∉ (keygen device order key).take n) :
    (d.run ((keygen device order key).take n) .privatekey).isSome ∧
      ¬Keys device (d.run ((keygen device order key).take n)) := by
  have hold := hd.publickey
  cases order with
  | publicFirst =>
    rcases n with _ | _ | _ | _ | n
    · simp at hcreated
    · simp [keygen] at hcreated
    · exact ⟨by simp [keygen], not_keys_of_empty (.inl (by simp [keygen]))⟩
    · exact ⟨by simp [keygen], not_keys_of_empty (.inr (.inr (by simp [keygen, Disk.apply])))⟩
    · simp [keygen] at hfilled
  | privateFirst =>
    rcases n with _ | _ | _ | _ | n
    · simp at hcreated
    · exact ⟨by simp [keygen], not_keys_of_empty (.inl (by simp [keygen]))⟩
    · exact ⟨by simp [keygen, Disk.apply], not_keys_of_empty (.inr (.inr (by simp [keygen])))⟩
    · exact ⟨by simp [keygen], not_keys_of_empty (.inr (.inr (by simp [keygen, Disk.apply])))⟩
    · simp [keygen] at hfilled
  | privateWritten =>
    rcases n with _ | _ | _ | _ | n
    · simp at hcreated
    · exact ⟨by simp [keygen], not_keys_of_empty (.inl (by simp [keygen]))⟩
    · exact ⟨by simp [keygen], not_keys_of_empty (.inr (by simpa [keygen, Disk.apply] using hold))⟩
    · exact ⟨by simp [keygen, Disk.apply], not_keys_of_empty (.inr (.inr (by simp [keygen])))⟩
    · simp [keygen] at hfilled

theorem keygen_uncut (hd : Unkeyed d) (order : Order) {key : String} (hkey : key ≠ "") (n : ℕ)
    (h : .write .privatekey "" ∈ (keygen device order key).take n →
      .write .publickey (device.pubkey key) ∈ (keygen device order key).take n) :
    .write .privatekey "" ∉ (keygen device order key).take n ∧
        Unkeyed (d.run ((keygen device order key).take n)) ∨
      Keys device (d.run ((keygen device order key).take n)) := by
  have hpub := device.pubkey_ne key
  have hfull : Keys device (d.run (keygen device order key)) := by
    refine ⟨key, hkey, ?_, ?_⟩
    · cases order <;> simp [keygen, Disk.apply]
    · cases order <;> simp [keygen]
  rcases n with _ | _ | _ | _ | n
  · exact .inl ⟨by simp, by simpa using hd⟩
  · cases order with
    | publicFirst =>
      exact .inl ⟨by simp [keygen], by simp [keygen, Disk.apply, hd.privatekey],
        .inr (by simp [keygen])⟩
    | privateFirst => simp [keygen] at h
    | privateWritten => simp [keygen] at h
  · cases order <;> simp [keygen, hpub] at h
  · cases order <;> simp [keygen, hpub] at h
  · have hall : (keygen device order key).take (n + 1 + 1 + 1 + 1) = keygen device order key := by
      cases order <;> simp [keygen]
    rw [hall]
    exact .inr hfull

-- ---------------------------------------------------------------------------
-- One boot
-- ---------------------------------------------------------------------------

theorem identityFiles_ok : ∃ dnsmasq networkd, dnsmasqText = .ok dnsmasq ∧
    networkdFile (bestEffort, 0) = .ok (.networkd (networkdUnitName bestEffort), networkd) ∧
    ∀ device, identityFiles device = .ok [(.hostapd, hostapdText device), (.dnsmasq, dnsmasq),
      (.networkd (networkdUnitName bestEffort), networkd), (.label, label device.identity)] :=
  ⟨_, _, rfl, rfl, fun _ => rfl⟩

structure Writes (device : Device) (writes : List (Disk.Op Path)) : Prop where
  privatekey : ∀ op ∈ writes, op.path ≠ .privatekey
  publickey : ∀ op ∈ writes, op.path ≠ .publickey
  sentinel : ∀ op ∈ writes, op.path ≠ .sentinel
  files : ∀ d : Disk Path, Files device (d.run writes)

def keyOps (device : Device) (d : Disk Path) (boot : Boot) : List (Disk.Op Path) :=
  if (d .privatekey).isSome then [] else keygen device boot.order boot.key

theorem script_eq (device : Device) (hs : d .sentinel = none) (boot : Boot) :
    ∃ writes, Writes device writes ∧
      script device d boot = writes ++ (keyOps device d boot ++ [.write .sentinel ""]) := by
  obtain ⟨dnsmasq, networkd, hdnsmasq, hnetworkd, hfiles⟩ := identityFiles_ok
  refine ⟨[(.hostapd, hostapdText device), (.dnsmasq, dnsmasq),
    (.networkd (networkdUnitName bestEffort), networkd),
    (.label, label device.identity)].flatMap writeText, ⟨?_, ?_, ?_, ?_⟩, ?_⟩
  · simp [writeText, Disk.Op.path]
  · simp [writeText, Disk.Op.path]
  · simp [writeText, Disk.Op.path]
  · intro d
    refine ⟨?_, ⟨dnsmasq, hdnsmasq, ?_⟩, ?_⟩
    · simp [writeText, Disk.apply]
    · simp [writeText, Disk.apply]
    · intro profile hprofile
      obtain rfl : profile = (bestEffort, 0) := by
        simpa [profilesForLanMode, lanMode, singleLanProfiles] using hprofile
      exact ⟨networkd, hnetworkd, by simp [writeText, Disk.apply]⟩
  · simp [script, hs, hfiles, keyOps]

theorem step_of_sentinel (hs : (d .sentinel).isSome) (boot : Boot) : step device d boot = d := by
  simp [step, done, script, hs]

/-- What a boot comes to for the keys is what it does of the pipeline. -/
structure OnKeys (device : Device) (d : Disk Path) (boot : Boot) (before : Disk Path) (n : ℕ) :
    Prop where
  before_private : before .privatekey = d .privatekey
  before_public : before .publickey = d .publickey
  after_private : step device d boot .privatekey =
    before.run ((keyOps device d boot).take n) .privatekey
  after_public : step device d boot .publickey =
    before.run ((keyOps device d boot).take n) .publickey
  done : ∀ p text, p = .privatekey ∨ p = .publickey →
    (.write p text ∈ done device d boot ↔ .write p text ∈ (keyOps device d boot).take n)

theorem onKeys (device : Device) (hs : d .sentinel = none) (boot : Boot) :
    ∃ before n, OnKeys device d boot before n := by
  obtain ⟨writes, hw, hscript⟩ := script_eq device hs boot
  have hdone : done device d boot = writes.take boot.done ++
      ((keyOps device d boot).take (boot.done - writes.length) ++
        [.write .sentinel ""].take
          (boot.done - writes.length - (keyOps device d boot).length)) := by
    rw [done, hscript, List.take_append, List.take_append]
  have hsentinel : ∀ n, ∀ op ∈ ([.write .sentinel ""] : List (Disk.Op Path)).take n,
      op.path = .sentinel := by
    intro n op hop
    have hop := List.mem_of_mem_take hop
    simp at hop
    simp [hop, Disk.Op.path]
  have hprivate : ∀ op ∈ writes.take boot.done, op.path ≠ .privatekey :=
    fun op hop => hw.privatekey op (List.mem_of_mem_take hop)
  have hpublic : ∀ op ∈ writes.take boot.done, op.path ≠ .publickey :=
    fun op hop => hw.publickey op (List.mem_of_mem_take hop)
  refine ⟨d.run (writes.take boot.done), boot.done - writes.length, ?_⟩
  constructor
  · exact Disk.run_other hprivate
  · exact Disk.run_other hpublic
  · rw [step, hdone, Disk.run_append, Disk.run_append]
    exact Disk.run_other fun op hop => by simp [hsentinel _ op hop]
  · rw [step, hdone, Disk.run_append, Disk.run_append]
    exact Disk.run_other fun op hop => by simp [hsentinel _ op hop]
  · intro p text hp
    rw [hdone, List.mem_append, List.mem_append]
    constructor
    · rintro (h | h | h)
      · rcases hp with rfl | rfl
        · exact absurd rfl (hprivate _ h)
        · exact absurd rfl (hpublic _ h)
      · exact h
      · have hpath : p = .sentinel := hsentinel _ _ h
        rcases hp with rfl | rfl <;> cases hpath
    · intro h
      exact .inr (.inl h)

theorem keyOps_path (hop : op ∈ keyOps device d boot) :
    op.path = .privatekey ∨ op.path = .publickey := by
  revert op
  unfold keyOps
  split
  · simp
  · cases boot.order <;> simp [keygen, Disk.Op.path]

theorem done_of_sentinel (hs : d .sentinel = none) (h : (step device d boot .sentinel).isSome) :
    done device d boot = script device d boot := by
  obtain ⟨writes, hw, hscript⟩ := script_eq device hs boot
  by_cases hall : (script device d boot).length ≤ boot.done
  · exact List.take_of_length_le hall
  · have hnone : step device d boot .sentinel = d .sentinel := by
      refine Disk.run_other fun op hop => ?_
      rw [done, hscript, ← List.append_assoc, List.take_append_of_le_length] at hop
      · rcases List.mem_append.mp (List.mem_of_mem_take hop) with hop | hop
        · exact hw.sentinel op hop
        · rcases keyOps_path hop with h | h <;> simp [h]
      · rw [hscript] at hall
        simp at hall ⊢
        omega
    rw [hnone, hs] at h
    cases h

theorem files_of_sentinel (hs : d .sentinel = none) (h : (step device d boot .sentinel).isSome) :
    Files device (step device d boot) := by
  obtain ⟨writes, hw, hscript⟩ := script_eq device hs boot
  have hother : ∀ p, p ≠ .privatekey → p ≠ .publickey → p ≠ .sentinel →
      step device d boot p = d.run writes p := by
    intro p hprivate hpublic hsentinel
    rw [step, done_of_sentinel hs h, hscript, Disk.run_append]
    refine Disk.run_other fun op hop => ?_
    rcases List.mem_append.mp hop with hop | hop
    · rcases keyOps_path hop with h | h
      · exact h ▸ Ne.symm hprivate
      · exact h ▸ Ne.symm hpublic
    · obtain rfl := List.mem_singleton.mp hop
      exact Ne.symm hsentinel
  have hfiles := hw.files d
  constructor
  · rw [hother _ (by simp) (by simp) (by simp)]
    exact hfiles.hostapd
  · rw [hother _ (by simp) (by simp) (by simp)]
    exact hfiles.dnsmasq
  · intro profile hprofile
    rw [hother _ (by simp) (by simp) (by simp)]
    exact hfiles.networkd profile hprofile

-- ---------------------------------------------------------------------------
-- Runs
-- ---------------------------------------------------------------------------

def Sound (device : Device) (d : Disk Path) : Prop :=
  d .sentinel = none ∧ Unkeyed d ∨ Keys device d ∧ ((d .sentinel).isSome → Files device d)

def Spoilt (device : Device) (d : Disk Path) : Prop :=
  (d .privatekey).isSome ∧ ¬Keys device d

theorem step_keyed (device : Device) (hk : (d .privatekey).isSome) (boot : Boot) :
    step device d boot .privatekey = d .privatekey ∧
      step device d boot .publickey = d .publickey ∧ ¬CutBetween device d boot := by
  cases hs : d .sentinel with
  | some text =>
    have hdone : done device d boot = [] := by simp [done, script, hs]
    rw [step_of_sentinel (by simp [hs])]
    exact ⟨rfl, rfl, by simp [CutBetween, hdone]⟩
  | none =>
    obtain ⟨before, n, h⟩ := onKeys device hs boot
    have hnil : keyOps device d boot = [] := by simp [keyOps, hk]
    refine ⟨?_, ?_, fun hcut => ?_⟩
    · rw [h.after_private, hnil, List.take_nil, Disk.run_nil, h.before_private]
    · rw [h.after_public, hnil, List.take_nil, Disk.run_nil, h.before_public]
    · have hcreated := (h.done _ _ (.inl rfl)).mp hcut.1
      rw [hnil, List.take_nil] at hcreated
      cases hcreated

theorem step_spoilt (h : Spoilt device d) (boot : Boot) : Spoilt device (step device d boot) := by
  obtain ⟨hprivate, hpublic, -⟩ := step_keyed device h.1 boot
  exact ⟨hprivate ▸ h.1, fun hkeys => h.2 (keys_congr hprivate.symm hpublic.symm hkeys)⟩

theorem keyOps_of_unkeyed (device : Device) (hd : Unkeyed d) (boot : Boot) :
    keyOps device d boot = keygen device boot.order boot.key := by
  simp [keyOps, hd.privatekey]

theorem OnKeys.unkeyed {before : Disk Path} {n : ℕ} (h : OnKeys device d boot before n)
    (hd : Unkeyed d) : Unkeyed before :=
  ⟨h.before_private.trans hd.privatekey, h.before_public ▸ hd.publickey⟩

theorem step_cut (h : Sound device d) (hcut : CutBetween device d boot) :
    Spoilt device (step device d boot) := by
  rcases h with ⟨hs, hd⟩ | ⟨hkeys, -⟩
  · obtain ⟨before, n, h⟩ := onKeys device hs boot
    obtain ⟨hcreated, hfilled⟩ := hcut
    rw [h.done _ _ (.inl rfl), keyOps_of_unkeyed device hd] at hcreated
    rw [h.done _ _ (.inr rfl), keyOps_of_unkeyed device hd] at hfilled
    obtain ⟨hsome, hbad⟩ := keygen_cut (h.unkeyed hd) boot.order boot.key n hcreated hfilled
    rw [← keyOps_of_unkeyed device hd boot] at hsome hbad
    exact ⟨h.after_private ▸ hsome, fun hkeys =>
      hbad (keys_congr h.after_private.symm h.after_public.symm hkeys)⟩
  · exact absurd hcut (step_keyed device hkeys.keyed boot).2.2

theorem step_sound (h : Sound device d) (hcut : ¬CutBetween device d boot) :
    Sound device (step device d boot) := by
  cases hs : d .sentinel with
  | some text =>
    rw [step_of_sentinel (by simp [hs])]
    exact h
  | none =>
    have hfiles : (step device d boot .sentinel).isSome → Files device (step device d boot) :=
      files_of_sentinel hs
    rcases h with ⟨-, hd⟩ | ⟨hkeys, -⟩
    · obtain ⟨before, n, h⟩ := onKeys device hs boot
      simp only [CutBetween, not_and, not_not] at hcut
      rw [h.done _ _ (.inl rfl), h.done _ _ (.inr rfl), keyOps_of_unkeyed device hd] at hcut
      have hprivate := h.after_private
      have hpublic := h.after_public
      rw [keyOps_of_unkeyed device hd] at hprivate hpublic
      rcases keygen_uncut (h.unkeyed hd) boot.order boot.key_ne n hcut with ⟨hnot, hnone⟩ | hkeys
      · refine .inl ⟨?_, hprivate.trans hnone.privatekey, hpublic ▸ hnone.publickey⟩
        by_contra hsome
        have hdone := done_of_sentinel hs (Option.isSome_iff_ne_none.mpr hsome)
        obtain ⟨writes, -, hscript⟩ := script_eq device hs boot
        have hcreated : .write .privatekey "" ∈ done device d boot := by
          rw [hdone, hscript, keyOps_of_unkeyed device hd]
          cases boot.order <;> simp [keygen]
        rw [h.done _ _ (.inl rfl), keyOps_of_unkeyed device hd] at hcreated
        exact hnot hcreated
      · exact .inr ⟨keys_congr hprivate hpublic hkeys, hfiles⟩
    · obtain ⟨hprivate, hpublic, -⟩ := step_keyed device hkeys.keyed boot
      exact .inr ⟨keys_congr hprivate hpublic hkeys, hfiles⟩

structure Fresh (d : Disk Path) : Prop where
  sentinel : d .sentinel = none
  privatekey : d .privatekey = none
  publickey : d .publickey = none

theorem Fresh.sound (h : Fresh d) : Sound device d :=
  .inl ⟨h.sentinel, h.privatekey, .inl h.publickey⟩

/-- What the mark stands for, and that no later boot changes anything. -/
structure Settled (device : Device) (d : Disk Path) : Prop where
  files : Files device d
  keys : Keys device d
  kept : ∀ later, Runs.exec (step device) d later = d

theorem exec_of_sentinel (hs : (d .sentinel).isSome) (boots : List Boot) :
    Runs.exec (step device) d boots = d :=
  Runs.exec_keeps (P := (· = d)) (fun d' boot _ h => by rw [h, step_of_sentinel hs]) rfl

theorem exec_spoilt (h : Spoilt device d) (boots : List Boot) :
    Spoilt device (Runs.exec (step device) d boots) :=
  Runs.exec_keeps (fun _ boot _ h => step_spoilt h boot) h

theorem settled_iff_of_sound (h : Sound device d) (boots : List Boot)
    (hs : (Runs.exec (step device) d boots .sentinel).isSome) :
    Settled device (Runs.exec (step device) d boots) ↔
      Runs.Along (step device) (fun d boot => ¬CutBetween device d boot) d boots := by
  induction boots generalizing d with
  | nil =>
    refine ⟨fun _ => trivial, fun _ => ?_⟩
    rcases h with ⟨hnone, -⟩ | ⟨hkeys, hfiles⟩
    · simp [hnone] at hs
    · exact ⟨hfiles hs, hkeys, exec_of_sentinel hs⟩
  | cons boot boots ih =>
    rw [Runs.along_cons, Runs.exec_cons]
    by_cases hcut : CutBetween device d boot
    · have hspoilt := exec_spoilt (step_cut h hcut) boots
      exact ⟨fun hsettled => absurd hsettled.keys hspoilt.2, fun ⟨hnot, _⟩ => absurd hcut hnot⟩
    · rw [ih (step_sound h hcut) hs]
      exact ⟨fun hrest => ⟨hcut, hrest⟩, fun hrest => hrest.2⟩

/-- Once the mark is there, what it stands for holds exactly if no boot before was
cut between the two files of the keys. -/
theorem settled_iff (device : Device) (h : Fresh d) (boots : List Boot)
    (hs : (Runs.exec (step device) d boots .sentinel).isSome) :
    Settled device (Runs.exec (step device) d boots) ↔
      Runs.Along (step device) (fun d boot => ¬CutBetween device d boot) d boots :=
  settled_iff_of_sound h.sound boots hs

-- ---------------------------------------------------------------------------
-- A device that is unplugged early
-- ---------------------------------------------------------------------------

def zero2w : Device where
  cpuSerial := "10000000abcdef01"
  machineId := "0123456789abcdef0123456789abcdef"
  pubkey key := "public key of " ++ key
  pubkey_ne key h := by simpa using congrArg String.length h

def blank : Disk Path := fun _ => none

theorem fresh_blank : Fresh blank := ⟨rfl, rfl, rfl⟩

def bootOf (done : ℕ) : Boot := ⟨"a private key", by simp, .privateFirst, done⟩

/-- The first boot gets through most of the identity, the second to the end. -/
theorem settled_uncut : Settled zero2w (Runs.exec (step zero2w) blank [bootOf 7, bootOf 13]) :=
  (settled_iff zero2w fresh_blank _ (by decide +kernel)).mpr (by decide +kernel)

/-- The first boot is cut where the file of the private key has just been made. -/
theorem cut_spoils :
    ((Runs.exec (step zero2w) blank [bootOf 9, bootOf 13]) .sentinel).isSome ∧
      ¬Settled zero2w (Runs.exec (step zero2w) blank [bootOf 9, bootOf 13]) := by
  refine ⟨by decide +kernel, fun h => ?_⟩
  have hcut : CutBetween zero2w blank (bootOf 9) := by decide +kernel
  exact (exec_spoilt (step_cut fresh_blank.sound hcut) [bootOf 13]).2 h.keys

end Wifucked.FirstBoot
