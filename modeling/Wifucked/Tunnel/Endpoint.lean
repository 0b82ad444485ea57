import Wifucked.Lib.Inet
import Wifucked.Lib.JsonText
import Wifucked.Lib.Lines
import Wifucked.Radio
import Wifucked.Tunnel

/-!
# The host route of a tunnel

The endpoint is that of the first peer which has one in `wg show … dump`. Its
host goes into a prefix of 32 bits, whichever family it is of.
-/

namespace Wifucked

namespace Tunnel

-- ---------------------------------------------------------------------------
-- Dumps
-- ---------------------------------------------------------------------------

structure PeerDump where
  publicKey : List Char
  endpoint : Option (List Char)
  latestHandshake : ℤ

def peerDump (line : List Char) : Option PeerDump :=
  match line.splitOn '\t' with
  | publicKey :: _ :: endpoint :: _ :: latest :: _ =>
    some
      { publicKey := publicKey
        endpoint := if endpoint = [] ∨ endpoint = "(none)".toList then none else some endpoint
        latestHandshake := (Numerals.shortInt latest).getD 0 }
  | _ => none

def parseWgDump (output : List Char) : List PeerDump :=
  ((Lines.splitlines Radio.isBreak output).drop 1).filterMap peerDump

def beforePort (endpoint : List Char) : List Char :=
  if ':' ∈ endpoint then (endpoint.reverse.dropWhile (· ≠ ':')).tail.reverse else endpoint

def endpointHost (endpoint : List Char) : Option (List Char) :=
  match Numerals.strip endpoint with
  | [] => none
  | '[' :: rest => Radio.given (rest.takeWhile (· ≠ ']'))
  | endpoint => Radio.given (beforePort endpoint)

def chosen (output : List Char) : Option (List Char) :=
  (parseWgDump output).findSome? (·.endpoint)

/-- `output` is what `wg` printed, where it ran. -/
def peerEndpointHost (output : Option (List Char)) : Option (List Char) :=
  ((Radio.given output).bind chosen).bind endpointHost

-- ---------------------------------------------------------------------------
-- The command
-- ---------------------------------------------------------------------------

end Tunnel

def HostRoute.argv (route : HostRoute) : List String :=
  ["ip", "route", "replace", route.endpoint ++ "/32"] ++
    (route.gateway.elim [] fun gateway => ["via", gateway]) ++ ["dev", route.ifname]

namespace Tunnel

/-- The route that `bind_to` asks for, if it asks for one. -/
def asksFor (tunnel : Tunnel) (env : TunnelEnv) (atomicId ifname : String) : Option HostRoute :=
  if tunnel.viaAtomicId = some atomicId then none
  else (env.peerEndpointHost.filter (· ≠ "")).map fun endpoint =>
    ⟨endpoint, (env.defaultGateway ifname).filter (· ≠ ""), ifname⟩

/-- What is asked for is the route that the tunnel has after it. -/
theorem hostRoute_bindTo (tunnel : Tunnel) (env : TunnelEnv) (atomicId ifname : String) :
    (tunnel.bindTo env atomicId ifname).1.hostRoute =
      if env.routeReplaced then (tunnel.asksFor env atomicId ifname).or tunnel.hostRoute
      else tunnel.hostRoute := by
  unfold bindTo asksFor
  split
  · simp
  · cases env.peerEndpointHost.filter (· ≠ "") with
    | none => simp
    | some endpoint => cases env.routeReplaced <;> simp

/-- What `bind_to` meets where the peers are what `wg` says. -/
def dumped (output : Option (List Char)) (defaultGateway : String → Option String)
    (routeReplaced : Bool) : TunnelEnv where
  peerEndpointHost := (peerEndpointHost output).map String.ofList
  defaultGateway := defaultGateway
  routeReplaced := routeReplaced

/-- An endpoint as `wg` prints it, with the address that it is at. The zone of an
address of IPv6 is the name of an interface. -/
inductive Endpoint : List Char → Inet.Address → Prop
  | v4 (h : Dotted.number (String.ofList host) = some a) (port : ℕ) :
    Endpoint (host ++ ':' :: (toString (port : ℤ)).toList) (.v4 a)
  | v6 (h : Inet.v6 host = some a) (port : ℕ) :
    Endpoint ('[' :: host ++ ']' :: ':' :: (toString (port : ℤ)).toList) (.v6 a)
  | zoned (h : Inet.v6 host = some a)
    (hzone : ∀ c ∈ zone, c ≠ ']' ∧ c ≠ '/' ∧ Numerals.isSpace c = false) (port : ℕ) :
    Endpoint ('[' :: (host ++ '%' :: zone) ++ ']' :: ':' :: (toString (port : ℤ)).toList) (.v6 a)

/-- The prefix that a command names is well formed and covers one address alone. -/
def Covers (argv : List String) (a : Inet.Address) : Prop :=
  ∃ text, argv[3]? = some text ∧
    ∃ block, Inet.readBlock text.toList = some block ∧ ∀ x, block.Covers x ↔ x = a

theorem port_plain {port : ℕ} (h : c ∈ (toString (port : ℤ)).toList) :
    Numerals.isSpace c = false ∧ c ≠ ':' := by
  have hcolon : ∀ d < 10, Nat.digitChar d ≠ ':' := by decide
  refine ⟨(Numerals.mem_toString h).1, ?_⟩
  rw [Numerals.toList_toString, if_pos (Int.natCast_nonneg port), List.nil_append] at h
  obtain ⟨d, hd, rfl⟩ := Numerals.mem_toDigits (by decide) h
  exact hcolon d hd

theorem beforePort_append (host : List Char) (h : ':' ∉ port) :
    beforePort (host ++ ':' :: port) = host := by
  have hport : ':' ∉ port.reverse := fun hc => h (List.mem_reverse.mp hc)
  rw [beforePort, if_pos (by simp), List.reverse_append, List.reverse_cons, List.append_assoc,
    List.singleton_append, Scan.dropWhile_ne_append hport, List.tail_cons, List.reverse_reverse]

theorem endpointHost_plain {host : List Char} (hne : host ≠ []) (hplain : ∀ c ∈ host, Inet.Plain c)
    (port : ℕ) : endpointHost (host ++ ':' :: (toString (port : ℤ)).toList) = some host := by
  have hspace : ∀ c ∈ host ++ ':' :: (toString (port : ℤ)).toList, Numerals.isSpace c = false := by
    intro c hc
    rcases List.mem_append.mp hc with hc | hc
    · exact (hplain c hc).not_space
    · rcases List.mem_cons.mp hc with rfl | hc
      · decide
      · exact (port_plain hc).1
  have hcolon : ':' ∉ (toString (port : ℤ)).toList := fun hc => (port_plain hc).2 rfl
  have hbefore := beforePort_append host hcolon
  rw [endpointHost, Numerals.strip_of_no_space hspace]
  cases host with
  | nil => exact absurd rfl hne
  | cons first rest =>
    have hfirst := (hplain first List.mem_cons_self).ne.1
    rw [List.cons_append] at hbefore ⊢
    split
    · rename_i heq
      cases heq
    · rename_i heq
      exact absurd (List.cons.inj heq).1 hfirst
    · rw [hbefore]
      simp [Radio.given]

theorem endpointHost_bracketed {host : List Char} (hne : host ≠ [])
    (hhost : ∀ c ∈ host, c ≠ ']' ∧ Numerals.isSpace c = false) (port : ℕ) :
    endpointHost ('[' :: host ++ ']' :: ':' :: (toString (port : ℤ)).toList) = some host := by
  have hspace : ∀ c ∈ '[' :: host ++ ']' :: ':' :: (toString (port : ℤ)).toList,
      Numerals.isSpace c = false := by
    intro c hc
    simp only [List.cons_append, List.mem_cons, List.mem_append] at hc
    rcases hc with rfl | hc | rfl | rfl | hc
    · decide
    · exact (hhost c hc).2
    · decide
    · decide
    · exact (port_plain hc).1
  have htake : ∀ c ∈ host, decide (c ≠ ']') = true := fun c hc => by simpa using (hhost c hc).1
  rw [endpointHost, Numerals.strip_of_no_space hspace, List.cons_append]
  simp only [List.takeWhile_append_of_pos htake]
  simp [Radio.given, hne]

-- ---------------------------------------------------------------------------
-- What the route covers
-- ---------------------------------------------------------------------------

/-- What `bind_to` runs for a host. -/
theorem covers_iff {route : HostRoute} {host : List Char} (h : route.endpoint = String.ofList host)
    (hslash : '/' ∉ host) :
    Covers route.argv a ↔
      ∃ b, (Inet.read host).bind (·.block 32) = some b ∧ ∀ x, b.Covers x ↔ x = a := by
  have htext : (route.endpoint ++ "/32").toList = host ++ '/' :: ['3', '2'] := by
    rw [h, String.toList_append, String.toList_ofList]
    rfl
  have hlength : Inet.digits 10 ['3', '2'] = some 32 := by decide
  have hblock : Inet.readBlock (host ++ '/' :: ['3', '2']) =
      (Inet.read host).bind (·.block 32) := by
    rw [Inet.readBlock_append hslash (by decide), hlength]
    rfl
  rw [← hblock, ← htext]
  constructor
  · rintro ⟨text, htext, hcovers⟩
    obtain rfl := Option.some.inj htext
    exact hcovers
  · intro hcovers
    exact ⟨_, rfl, hcovers⟩

theorem covers_of_read {route : HostRoute} {host : List Char}
    (h : route.endpoint = String.ofList host) (hread : Inet.read host = some a) :
    Covers route.argv a ↔ a.IsV4 := by
  have hslash : '/' ∉ host := fun hc => (Inet.plain_of_read hread hc).ne.2.2.1 rfl
  rw [covers_iff h hslash, hread, Option.bind_some]
  exact Inet.block_covers_iff a

theorem read_zoned (host zone : List Char) : Inet.read (host ++ '%' :: zone) = none := by
  cases hread : Inet.read (host ++ '%' :: zone) with
  | none => rfl
  | some a => exact absurd rfl (Inet.plain_of_read hread (by simp : '%' ∈ _)).ne.2.2.2

theorem covers_host_iff (h : Endpoint text a) :
    ∃ host, endpointHost text = some host ∧ host ≠ [] ∧
      ∀ route : HostRoute, route.endpoint = String.ofList host →
        (Covers route.argv a ↔ a.IsV4) := by
  cases h with
  | @v4 host a h port =>
    have hread := Inet.read_v4 h
    have hplain : ∀ c ∈ host, Inet.Plain c := fun c => Inet.plain_of_read hread
    have hne : host ≠ [] := by
      rintro rfl
      cases hread
    exact ⟨host, endpointHost_plain hne hplain port, hne,
      fun route hroute => covers_of_read hroute hread⟩
  | @v6 host a h port =>
    have hread := Inet.read_v6 h
    have hplain : ∀ c ∈ host, Inet.Plain c := fun c => Inet.plain_of_read hread
    have hne : host ≠ [] := List.ne_nil_of_mem (Inet.colon_of_v6 h)
    exact ⟨host, endpointHost_bracketed hne
      (fun c hc => ⟨(hplain c hc).ne.2.1, (hplain c hc).not_space⟩) port, hne,
      fun route hroute => covers_of_read hroute hread⟩
  | @zoned host a zone h hzone port =>
    have hplain : ∀ c ∈ host, Inet.Plain c := fun c => Inet.plain_of_read (Inet.read_v6 h)
    have hchars : ∀ c ∈ host ++ '%' :: zone, c ≠ ']' ∧ c ≠ '/' ∧ Numerals.isSpace c = false := by
      intro c hc
      rcases List.mem_append.mp hc with hc | hc
      · exact ⟨(hplain c hc).ne.2.1, (hplain c hc).ne.2.2.1, (hplain c hc).not_space⟩
      · rcases List.mem_cons.mp hc with rfl | hc
        · decide
        · exact hzone c hc
    refine ⟨host ++ '%' :: zone, endpointHost_bracketed (by simp)
      (fun c hc => ⟨(hchars c hc).1, (hchars c hc).2.2⟩) port, by simp, fun route hroute => ?_⟩
    rw [covers_iff hroute fun hc => (hchars _ hc).2.1 rfl, read_zoned]
    exact iff_of_false (fun ⟨_, hb, _⟩ => by cases hb) fun h => h

/-- Whatever `wg` prints, a tunnel that moves asks for a route, which covers the
address of the endpoint alone exactly where that is one of IPv4. -/
theorem bindTo_covers_iff (tunnel : Tunnel) (defaultGateway : String → Option String)
    (routeReplaced : Bool) (atomicId ifname : String) (output text : List Char) (a : Inet.Address)
    (hmoves : tunnel.viaAtomicId ≠ some atomicId) (hchosen : chosen output = some text)
    (h : Endpoint text a) :
    ∃ route, tunnel.asksFor (dumped (some output) defaultGateway routeReplaced) atomicId ifname =
        some route ∧ (Covers route.argv a ↔ a.IsV4) := by
  obtain ⟨host, hhost, hne, hcovers⟩ := covers_host_iff h
  have houtput : output ≠ [] := by
    rintro rfl
    cases hchosen
  have hgiven : Radio.given (some output) = some output := by simp [Radio.given, houtput]
  have hpeer : peerEndpointHost (some output) = some host := by
    rw [peerEndpointHost, hgiven, Option.bind_some, hchosen, Option.bind_some, hhost]
  refine ⟨⟨String.ofList host, (defaultGateway ifname).filter (· ≠ ""), ifname⟩, ?_,
    hcovers _ rfl⟩
  have hsome : String.ofList host ≠ "" := by simpa using hne
  simp [asksFor, hmoves, dumped, hpeer, hsome]

def fabricV4 : List Char :=
  "k\tp\t51820\toff\nf\t(none)\t203.0.113.5:51820\t0.0.0.0/0\t0\t0\t0\t25\n".toList

def fabricV6 : List Char :=
  "k\tp\t51820\toff\nf\t(none)\t[2001:db8::1]:51820\t0.0.0.0/0\t0\t0\t0\t25\n".toList

theorem bindTo_covers_v4 :
    ∃ route, (init "wg0").asksFor (dumped (some fabricV4) (fun _ => none) true) "usb" "usb0" =
        some route ∧ (Covers route.argv (.v4 3405803781) ↔ True) :=
  bindTo_covers_iff (init "wg0") (fun _ => none) true "usb" "usb0" fabricV4
    "203.0.113.5:51820".toList (.v4 3405803781) (by decide) (by decide +kernel)
    (.v4 (by decide : Dotted.number (String.ofList "203.0.113.5".toList) = _) 51820)

/-- A fabric at an address of IPv6: 2^96 addresses move to the connection with it. -/
theorem bindTo_covers_more :
    chosen fabricV6 = some "[2001:db8::1]:51820".toList ∧
      Endpoint "[2001:db8::1]:51820".toList (.v6 42540766411282592856903984951653826561) ∧
      ∃ route, (init "wg0").asksFor (dumped (some fabricV6) (fun _ => none) true) "usb" "usb0" =
          some route ∧
        route.argv = ["ip", "route", "replace", "2001:db8::1/32", "dev", "usb0"] ∧
        ¬Covers route.argv (.v6 42540766411282592856903984951653826561) := by
  have hv6 : Inet.v6 "2001:db8::1".toList = some 42540766411282592856903984951653826561 := by decide
  refine ⟨by decide +kernel, .v6 hv6 51820, ⟨"2001:db8::1", none, "usb0"⟩, by decide +kernel,
    by decide, (covers_of_read String.ofList_toList.symm (Inet.read_v6 hv6)).mp⟩

end Tunnel

end Wifucked
