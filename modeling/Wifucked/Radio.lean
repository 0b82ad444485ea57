import Mathlib.Algebra.Order.Ring.Int
import Wifucked.Lib.Numerals
import Wifucked.Lib.Runs
import Wifucked.Discovery

/-!
# The channel of the access point

One radio serves the access point and, where Wi-Fi is the only way out, the
station too. `iw` reports the station's frequency, which is kept as a channel;
moving the access point makes a frequency of a channel again.
-/

namespace Wifucked

variable {K : Type}

namespace Radio

-- ---------------------------------------------------------------------------
-- The station
-- ---------------------------------------------------------------------------

def freqToChannel (mhz : ℤ) : ℤ :=
  if 2412 ≤ mhz ∧ mhz ≤ 2472 then (mhz - 2412) / 5 + 1
  else if mhz = 2484 then 14
  else 0

structure StationLink extends Wifucked.StationLink where
  channel : ℤ

inductive LinkError where
  /-- `Connected to` with no third word. -/
  | indexError
  /-- A frequency that `int` does not take. -/
  | valueError
  deriving DecidableEq

/-- `splitlines`, but for empty lines. -/
def isBreak (c : Char) : Bool :=
  c.toNat ∈ [0x85, 0x2028, 0x2029] || (10 ≤ c.toNat && c.toNat ≤ 13) ||
    (28 ≤ c.toNat && c.toNat ≤ 30)

def lines (out : List Char) : List (List Char) := (out.splitOnP isBreak).map Numerals.strip

def words (line : List Char) : List (List Char) :=
  (line.splitOnP Numerals.isSpace).filter (· ≠ [])

def after (key : String) (line : List Char) : Option (List Char) :=
  if key.toList.isPrefixOf line then some (line.drop key.length) else none

structure Link where
  ssid : Option (List Char)
  bssid : Option (List Char)
  channel : ℤ

def readLine (l : Link) (line : List Char) : Except LinkError Link :=
  if (after "Connected to" line).isSome then
    match (words line)[2]? with
    | none => .error .indexError
    | some bssid => .ok { l with bssid := some bssid }
  else match after "SSID:" line with
    | some ssid => .ok { l with ssid := some (Numerals.strip ssid) }
    | none => match after "freq:" line with
      | none => .ok l
      | some mhz => match Numerals.shortInt mhz with
        | none => .error .valueError
        | some mhz => .ok { l with channel := freqToChannel mhz }

def given (text : Option (List Char)) : Option (List Char) := text.filter (· ≠ [])

/-- `out` is what `iw dev … link` printed, where it ran. -/
def stationLink (ifname : String) (out : Option (List Char)) :
    Except LinkError (Option StationLink) :=
  match given out with
  | none => .ok none
  | some out =>
    if out.tails.any "Not connected".toList.isPrefixOf then .ok none
    else do
      let l ← (lines out).foldlM readLine ⟨none, none, 0⟩
      return do
        let ssid ← given l.ssid
        let bssid ← given l.bssid
        return ⟨⟨String.ofList ssid, String.ofList bssid, ifname⟩, l.channel⟩

-- ---------------------------------------------------------------------------
-- The access point
-- ---------------------------------------------------------------------------

structure ApStatus where
  running : Bool
  channel : Option ℤ
  ssids : List String
  associatedClients : ℤ

/-- The frequency that `channel_switch` asks hostapd for. -/
def chanFreq (channel : ℤ) : ℤ := if channel ≠ 14 then 2407 + channel * 5 else 2484

inductive Profile where
  | anchor
  | shared
  deriving DecidableEq, Repr

def anchors (a : Atomic K) : Bool :=
  a.present && a.mode ≠ .unused &&
    a.kind ∈ [Kind.usbTether, .usbEthernet, .ethernet, .cellular]

/-- ANCHOR wherever there is another way out than Wi-Fi. -/
def selectProfile (atomics : List (Atomic K)) : Profile :=
  if atomics.any anchors then .anchor else .shared

structure RadioState where
  profile : Profile
  apChannel : Option ℤ
  stationChannel : Option ℤ
  apRunning : Bool
  clients : ℤ
  channelConflict : Bool

end Radio

inductive RadioEvent where
  | radioProfile (before : Option Radio.Profile) (after : Radio.Profile)
  | csaMove (before : Option ℤ) (after : ℤ) (ok : Bool) (clientsLost : ℤ)

structure RadioManager where
  profile : Option Radio.Profile
  /-- The driver has refused to move the access point. -/
  csaUnavailable : Bool

namespace RadioManager

open Radio

def init : RadioManager := ⟨none, false⟩

def observe (m : RadioManager) (ap : ApStatus) (link : Option Radio.StationLink)
    (atomics : List (Atomic K)) : RadioManager × RadioState × Option RadioEvent :=
  let profile := selectProfile atomics
  let conflict := profile = .shared && link.any fun l =>
    ap.channel.any fun channel => l.channel ≠ channel
  ({ m with profile := some profile },
    { profile := profile
      apChannel := ap.channel
      stationChannel := link.map (·.channel)
      apRunning := ap.running
      clients := ap.associatedClients
      channelConflict := conflict },
    if m.profile = some profile then none else some (.radioProfile m.profile profile))

/-- What hostapd makes of a switch, between two looks at its status. -/
structure Switch where
  before : ApStatus
  ok : Bool
  after : ApStatus

structure Aligned where
  manager : RadioManager
  answer : Bool
  /-- The channel that a switch was requested to. -/
  requested : Option ℤ
  event : Option RadioEvent

def align (m : RadioManager) (state : RadioState) (switch : Switch) : Aligned :=
  if state.profile = .anchor ∨ state.channelConflict = false then ⟨m, true, none, none⟩
  else match state.stationChannel with
    | none => ⟨m, true, none, none⟩
    | some channel =>
      if m.csaUnavailable then ⟨m, false, none, none⟩
      else
        let lost := max 0 (switch.before.associatedClients - switch.after.associatedClients)
        { manager := if switch.ok then m else { m with csaUnavailable := true }
          answer := switch.ok
          requested := some channel
          event := some (.csaMove switch.before.channel channel switch.ok lost) }

theorem requested_align_iff (m : RadioManager) (state : RadioState) (switch : Switch) (c : ℤ) :
    (m.align state switch).requested = some c ↔ m.csaUnavailable = false ∧
      state.profile = .shared ∧ state.channelConflict = true ∧ state.stationChannel = some c := by
  unfold align
  split
  · rename_i hguard
    refine iff_of_false (by simp) ?_
    rintro ⟨-, hshared, hconflict, -⟩
    rcases hguard with hanchor | hnone
    · rw [hshared] at hanchor
      cases hanchor
    · rw [hconflict] at hnone
      cases hnone
  · rename_i hguard
    obtain ⟨hprofile, hconflict⟩ := not_or.mp hguard
    have hshared : state.profile = .shared := by
      cases hstate : state.profile with
      | anchor => exact absurd hstate hprofile
      | shared => rfl
    cases hchannel : state.stationChannel with
    | none => simp
    | some channel =>
      cases hcsa : m.csaUnavailable with
      | true => simp
      | false => simp [hshared, hconflict]

theorem csaUnavailable_align (m : RadioManager) (state : RadioState) (switch : Switch) :
    (m.align state switch).manager.csaUnavailable =
      (m.csaUnavailable || (m.align state switch).requested.isSome && !switch.ok) := by
  unfold align
  split
  · simp
  · cases state.stationChannel with
    | none => simp
    | some channel =>
      cases hcsa : m.csaUnavailable with
      | true => simp [hcsa]
      | false => cases switch.ok <;> simp [hcsa]

end RadioManager

-- ---------------------------------------------------------------------------
-- Channels and frequencies
-- ---------------------------------------------------------------------------

namespace Radio

def OnTable (mhz : ℤ) : Prop := mhz = 2407 ∨ 2412 ≤ mhz ∧ mhz ≤ 2472 ∧ mhz % 5 = 2 ∨ mhz = 2484

instance (mhz : ℤ) : Decidable (OnTable mhz) :=
  inferInstanceAs (Decidable (_ ∨ _ ∧ _ ∧ _ ∨ _))

theorem chanFreq_freqToChannel_iff (mhz : ℤ) :
    chanFreq (freqToChannel mhz) = mhz ↔ OnTable mhz := by
  unfold chanFreq freqToChannel OnTable
  split <;> split <;> omega

def freqOf (line : List Char) : Option ℤ := (after "freq:" line).bind Numerals.shortInt

def frequency (out : List Char) : Option ℤ := ((lines out).filterMap freqOf).getLast?

theorem not_freq {key : String} {c : Char} {cs : List Char} (hkey : key.toList = c :: cs)
    (hc : c ≠ 'f') {line : List Char} (h : (after key line).isSome) :
    after "freq:" line = none := by
  have hprefix : key.toList <+: line := by
    unfold after at h
    split at h
    · exact List.isPrefixOf_iff_prefix.mp ‹_›
    · cases h
  obtain ⟨rest, rfl⟩ := hprefix
  have hnot : ¬"freq:".toList.isPrefixOf (key.toList ++ rest) := by
    rw [List.isPrefixOf_iff_prefix, hkey]
    rintro ⟨more, hmore⟩
    exact hc (List.cons.inj hmore).1.symm
  rw [after, if_neg hnot]

theorem channel_readLine {l l' : Link} {line : List Char} (h : readLine l line = .ok l') :
    l'.channel = ((freqOf line).map freqToChannel).getD l.channel := by
  unfold freqOf
  unfold readLine at h
  split at h
  · rename_i hconnected
    rw [not_freq rfl (by decide) hconnected]
    split at h
    · cases h
    · obtain rfl := Except.ok.inj h
      rfl
  · split at h
    · rename_i ssid hssid
      rw [not_freq rfl (by decide) (Option.isSome_of_eq_some hssid)]
      obtain rfl := Except.ok.inj h
      rfl
    · split at h
      · rename_i hfreq
        rw [hfreq]
        obtain rfl := Except.ok.inj h
        rfl
      · rename_i mhz hfreq
        rw [hfreq]
        split at h
        · cases h
        · rename_i n hn
          obtain rfl := Except.ok.inj h
          simp [hn]

theorem channel_foldlM {ls : List (List Char)} {l l' : Link}
    (h : ls.foldlM readLine l = .ok l') :
    l'.channel = ((ls.filterMap freqOf).getLast?.map freqToChannel).getD l.channel := by
  induction ls generalizing l with
  | nil =>
    obtain rfl := Except.ok.inj h
    rfl
  | cons line ls ih =>
    rw [List.foldlM_cons] at h
    cases hline : readLine l line with
    | error e =>
      rw [hline] at h
      cases h
    | ok m =>
      rw [hline] at h
      rw [ih h, channel_readLine hline]
      cases hmhz : freqOf line with
      | none => rw [List.filterMap_cons_none hmhz]; rfl
      | some mhz =>
        rw [List.filterMap_cons_some hmhz, List.getLast?_cons]
        cases (ls.filterMap freqOf).getLast? <;> rfl

theorem channel_stationLink {ifname : String} {out : List Char} {link : StationLink}
    (h : stationLink ifname (some out) = .ok (some link)) :
    link.channel = ((frequency out).map freqToChannel).getD 0 := by
  unfold stationLink at h
  split at h
  · cases h
  · rename_i text htext
    obtain rfl : out = text := Option.some.inj (Option.filter_eq_some_iff.mp htext).1
    split at h
    · cases h
    · cases hfold : (lines out).foldlM readLine ⟨none, none, 0⟩ with
      | error e =>
        rw [hfold] at h
        cases h
      | ok l =>
        rw [hfold] at h
        have h := Except.ok.inj h
        obtain ⟨ssid, -, h⟩ := Option.bind_eq_some_iff.mp h
        obtain ⟨bssid, -, h⟩ := Option.bind_eq_some_iff.mp h
        obtain rfl := Option.some.inj h
        exact channel_foldlM hfold

end Radio

-- ---------------------------------------------------------------------------
-- Runs
-- ---------------------------------------------------------------------------

/-- What `observe` is called on: the atomics, the access point and what `iw` printed. -/
structure RadioLook (K : Type) where
  atomics : List (Atomic K)
  ap : Radio.ApStatus
  out : Option (List Char)

inductive RadioCall (K : Type) where
  | observe (look : RadioLook K)
  | align (switch : RadioManager.Switch)

/-- The manager with the last look and what came of it, and whether a switch was
refused so far. -/
structure Moving (K : Type) where
  radio : RadioManager
  seen : Option (RadioLook K × Radio.RadioState)
  refused : Bool

namespace Moving

open Radio

def start : Moving K := ⟨.init, none, false⟩

/-- The channel that a call requests a switch to. -/
def requested (s : Moving K) : RadioCall K → Option ℤ
  | .observe _ => none
  | .align switch => s.seen.bind fun (_, state) => (s.radio.align state switch).requested

/-- An error of `station_link` leaves `observe` before anything is changed. -/
def step (ifname : String) (s : Moving K) : RadioCall K → Moving K
  | .observe look =>
    match stationLink ifname look.out with
    | .error _ => s
    | .ok link =>
      let (radio, state, _) := s.radio.observe look.ap link look.atomics
      { s with radio := radio, seen := some (look, state) }
  | .align switch =>
    match s.seen with
    | none => s
    | some (_, state) =>
      { s with
        radio := (s.radio.align state switch).manager
        refused := s.refused || (s.requested (.align switch)).isSome && !switch.ok }

def look (s : Moving K) : Option (RadioLook K) := s.seen.map (·.1)

def Apart (ifname : String) (look : RadioLook K) : Prop :=
  selectProfile look.atomics = .shared ∧
    ∃ link a, stationLink ifname look.out = .ok (some link) ∧ look.ap.channel = some a ∧
      link.channel ≠ a

/-- A switch is requested only where it has to be, and onto the station's frequency. -/
def Moves (ifname : String) (s : Moving K) (call : RadioCall K) : Prop :=
  ∀ c, s.requested call = some c → s.refused = false ∧
    ∃ look, s.look = some look ∧ Apart ifname look ∧ look.out.bind frequency = some (chanFreq c)

/-- Where the access point would have to be moved, the station's frequency is
one that its channel leads back to. -/
def MovesOnTable (ifname : String) (s : Moving K) : RadioCall K → Prop
  | .observe _ => True
  | .align _ => s.refused = false → ∀ look, s.look = some look → Apart ifname look →
    ∃ mhz, look.out.bind frequency = some mhz ∧ OnTable mhz

structure Sound (ifname : String) (s : Moving K) : Prop where
  refused : s.refused = s.radio.csaUnavailable
  seen : ∀ look state, s.seen = some (look, state) →
    ∃ link, stationLink ifname look.out = .ok link ∧
      state = (s.radio.observe look.ap link look.atomics).2.1

variable {ifname : String} {s : Moving K}

theorem sound_start (ifname : String) : Sound ifname (start : Moving K) :=
  ⟨rfl, fun _ _ h => nomatch h⟩

theorem sound_step (h : Sound ifname s) (call : RadioCall K) :
    Sound ifname (s.step ifname call) := by
  cases call with
  | observe look =>
    cases hlink : stationLink ifname look.out with
    | error e => simpa [step, hlink] using h
    | ok link =>
      simp only [step, hlink]
      refine ⟨h.refused, ?_⟩
      intro look' state hseen
      obtain ⟨rfl, rfl⟩ := Prod.mk.inj (Option.some.inj hseen)
      exact ⟨link, hlink, rfl⟩
  | align switch =>
    cases hseen : s.seen with
    | none => simpa [step, hseen] using h
    | some seen =>
      obtain ⟨look, state⟩ := seen
      simp only [step, requested, hseen, Option.bind_some]
      refine ⟨?_, ?_⟩
      · rw [h.refused, RadioManager.csaUnavailable_align]
      · intro look' state' hseen'
        exact h.seen look' state' (hseen.trans hseen')

def channelOf (look : RadioLook K) : ℤ := ((look.out.bind frequency).map freqToChannel).getD 0

/-- What `observe` makes of a look, for `align`. -/
theorem conflict_iff (m : RadioManager) (look : RadioLook K) (link : Option Radio.StationLink)
    (hlink : stationLink ifname look.out = .ok link) (c : ℤ) :
    let state := (m.observe look.ap link look.atomics).2.1
    state.profile = .shared ∧ state.channelConflict = true ∧ state.stationChannel = some c ↔
      Apart ifname look ∧ c = channelOf look := by
  intro state
  cases hsome : link with
  | none =>
    refine iff_of_false (by simp [state, RadioManager.observe, hsome]) ?_
    rintro ⟨⟨-, l, -, hl, -⟩, -⟩
    rw [hlink, hsome] at hl
    cases hl
  | some l =>
    rw [hsome] at hlink
    have hchannel : l.channel = channelOf look := by
      cases hout : look.out with
      | none =>
        rw [hout] at hlink
        cases hlink
      | some out =>
        rw [hout] at hlink
        rw [channelOf, hout, Option.bind_some, channel_stationLink hlink]
    have hapart : Apart ifname look ↔ selectProfile look.atomics = .shared ∧
        ∃ a, look.ap.channel = some a ∧ l.channel ≠ a := by
      refine and_congr_right fun _ => ⟨?_, ?_⟩
      · rintro ⟨l', a, hl', ha, hne⟩
        obtain rfl := Option.some.inj (Except.ok.inj (hlink.symm.trans hl'))
        exact ⟨a, ha, hne⟩
      · rintro ⟨a, ha, hne⟩
        exact ⟨l, a, hlink, ha, hne⟩
    rw [hapart, ← hchannel]
    simp only [state, RadioManager.observe, hsome, Option.any_some, Option.map_some,
      Option.some.injEq, Bool.and_eq_true, decide_eq_true_eq, Option.any_eq_true,
      ne_eq]
    constructor
    · rintro ⟨hshared, ⟨-, hany⟩, rfl⟩
      exact ⟨⟨hshared, hany⟩, rfl⟩
    · rintro ⟨⟨hshared, hany⟩, rfl⟩
      exact ⟨hshared, ⟨hshared, hany⟩, rfl⟩

theorem requested_iff (h : Sound ifname s) (switch : RadioManager.Switch) (c : ℤ) :
    s.requested (.align switch) = some c ↔ s.refused = false ∧
      ∃ look, s.look = some look ∧ Apart ifname look ∧ c = channelOf look := by
  cases hseen : s.seen with
  | none => simp [requested, look, hseen]
  | some seen =>
    obtain ⟨look, state⟩ := seen
    obtain ⟨link, hlink, rfl⟩ := h.seen look state hseen
    simp only [requested, Moving.look, hseen, Option.bind_some, Option.map_some, Option.some.injEq,
      exists_eq_left', RadioManager.requested_align_iff, ← h.refused]
    exact and_congr_right fun _ => conflict_iff s.radio look link hlink c

theorem moves_iff (h : Sound ifname s) (call : RadioCall K) :
    Moves ifname s call ↔ MovesOnTable ifname s call := by
  cases call with
  | observe look => exact iff_of_true (fun c hc => nomatch hc) trivial
  | align switch =>
    unfold Moves MovesOnTable
    simp only [requested_iff h switch]
    constructor
    · intro hmoves hrefused look hlook hapart
      obtain ⟨-, look', hlook', -, hfreq⟩ :=
        hmoves (channelOf look) ⟨hrefused, look, hlook, hapart, rfl⟩
      obtain rfl := Option.some.inj (hlook.symm.trans hlook')
      refine ⟨_, hfreq, (chanFreq_freqToChannel_iff _).mp ?_⟩
      conv_rhs => rw [channelOf, hfreq]
      rfl
    · rintro htable c ⟨hrefused, look, hlook, hapart, rfl⟩
      obtain ⟨mhz, hmhz, hon⟩ := htable hrefused look hlook hapart
      refine ⟨hrefused, look, hlook, hapart, ?_⟩
      rw [channelOf, hmhz, Option.map_some, Option.getD_some,
        (chanFreq_freqToChannel_iff mhz).mpr hon]

/-- All along a run the access point is asked onto the station's frequency only,
exactly where each frequency it has to follow is on the table of channels. -/
theorem moved_onto_station_iff (ifname : String) (calls : List (RadioCall K)) :
    Runs.Along (step ifname) (Moves ifname) start calls ↔
      Runs.Along (step ifname) (MovesOnTable ifname) start calls :=
  Runs.along_iff (fun s call (h : Sound ifname s) _ => sound_step h call)
    (fun _ call h => moves_iff h call) (sound_start ifname)

def linkOn (mhz : String) : List Char :=
  ("Connected to 02:00:00:00:00:01 (on wlan0)\n\tSSID: Hotel\n\tfreq: " ++ mhz ++ "\n").toList

def onSix : ApStatus := ⟨true, some 6, ["wifucked"], 2⟩

def onEleven : ApStatus := ⟨true, some 11, ["wifucked"], 2⟩

/-- The access point follows the station to channel 11, and the next second to 1. -/
theorem moves_along_hotel :
    Runs.Along (step "wlan0") (Moves "wlan0") (start : Moving ℕ)
      [.observe ⟨[], onSix, some (linkOn "2462")⟩, .align ⟨onSix, true, onEleven⟩,
        .observe ⟨[], onEleven, some (linkOn "2412")⟩, .align ⟨onEleven, true, onEleven⟩] := by
  refine (moved_onto_station_iff "wlan0" _).mpr ⟨trivial, ?_, trivial, ?_, trivial⟩
  · rintro - look hlook -
    obtain rfl := Option.some.inj hlook
    exact ⟨2462, rfl, by decide⟩
  · rintro - look hlook -
    obtain rfl := Option.some.inj hlook
    exact ⟨2412, rfl, by decide⟩

theorem moved_off_station_on_5ghz :
    ¬Runs.Along (step "wlan0") (Moves "wlan0") (start : Moving ℕ)
      [.observe ⟨[], onSix, some (linkOn "5180")⟩, .align ⟨onSix, true, onSix⟩] := by
  rintro ⟨-, hmoves, -⟩
  obtain ⟨-, look, hlook, -, hfreq⟩ := hmoves 0 rfl
  obtain rfl := Option.some.inj hlook
  exact absurd (hfreq.symm.trans (show _ = some (5180 : ℤ) from rfl)) (by decide)

end Moving

end Wifucked
