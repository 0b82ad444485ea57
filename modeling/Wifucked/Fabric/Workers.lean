import Wifucked.Fabric.Peers
import Wifucked.Lib.Threads

/-!
# Allocation by several workers

A thread goes through `allocate` a step at a time: the two locks of `_guard`,
the read, the temporary file and its rename, and the locks again. Between any
two of its steps the threads of all workers may move.
-/

namespace Wifucked.Fabric

namespace Workers

/-- A call that has returned, with the file it found under the guard and the
file it left there. Without a result it raised `PoolExhausted`. -/
structure Returned where
  publicKey : String
  found : PeersFile
  result : Option PeerAllocation
  left : PeersFile

structure Shared (τ ω : Type) where
  registry : PeerRegistry
  tmp : PeersFile
  /-- `_process_lock`, one in each worker. -/
  processLock : ω → Option τ
  /-- The `flock` on the sidecar file. -/
  fileLock : Option τ
  returned : List Returned

/-- What a thread does next. No step reads `found`. -/
inductive Point where
  | idle
  | called (publicKey : String)
  | locked (publicKey : String)
  | guarded (publicKey : String) (found : PeersFile)
  | loaded (publicKey : String) (found : PeersFile)
      (peers : Keyed (String × Address) Prod.fst)
  | storing (publicKey : String) (found : PeersFile) (address : Address)
      (peers : Keyed (String × Address) Prod.fst)
  | opened (publicKey : String) (found : PeersFile) (address : Address)
      (peers : Keyed (String × Address) Prod.fst)
  | written (publicKey : String) (found : PeersFile) (address : Address)
      (peers : Keyed (String × Address) Prod.fst)
  | leaving (publicKey : String) (found : PeersFile) (result : Option PeerAllocation)
  | unlocked (call : Returned)

inductive Turn where
  | call (publicKey : String)
  | go

variable {τ ω : Type} [DecidableEq ω] (worker : τ → ω)

/-- A thread that waits for a lock moves on once nobody has it. -/
def move (t : τ) (s : Shared τ ω) : Point → Turn → Shared τ ω × Point
  | .idle, .call publicKey => (s, .called publicKey)
  | .idle, .go => (s, .idle)
  | .called publicKey, _ =>
    if s.processLock (worker t) = none then
      ({ s with processLock := Function.update s.processLock (worker t) (some t) },
        .locked publicKey)
    else (s, .called publicKey)
  | .locked publicKey, _ =>
    if s.fileLock = none then
      ({ s with fileLock := some t }, .guarded publicKey s.registry.file)
    else (s, .locked publicKey)
  | .guarded publicKey found, _ => (s, .loaded publicKey found s.registry.load)
  | .loaded publicKey found peers, _ =>
    match peers.get? publicKey with
    | some existing => (s, .leaving publicKey found (some ⟨publicKey, existing.2, false⟩))
    | none =>
      match s.registry.nextFree peers with
      | none => (s, .leaving publicKey found none)
      | some address =>
        (s, .storing publicKey found address (peers.put (publicKey, address)))
  -- `write_text` empties the file before it writes.
  | .storing publicKey found address peers, _ =>
    ({ s with tmp := .unreadable }, .opened publicKey found address peers)
  | .opened publicKey found address peers, _ =>
    ({ s with tmp := .peers peers }, .written publicKey found address peers)
  | .written publicKey found address _, _ =>
    ({ s with registry := { s.registry with file := s.tmp }, tmp := .missing },
      .leaving publicKey found (some ⟨publicKey, address, true⟩))
  | .leaving publicKey found result, _ =>
    ({ s with fileLock := none }, .unlocked ⟨publicKey, found, result, s.registry.file⟩)
  | .unlocked call, _ =>
    ({ s with
        processLock := Function.update s.processLock (worker t) none
        returned := s.returned ++ [call] }, .idle)

abbrev State (τ ω : Type) := Threads τ (Shared τ ω) Point

def init (registry : PeerRegistry) : State τ ω :=
  { shared := ⟨registry, .missing, fun _ => none, none, []⟩, own := fun _ => .idle }

/-- The call did what `allocate` does alone with the file it found, and the
address it returned is the one in the file. -/
structure Settled (registry : PeerRegistry) (call : Returned) : Prop where
  alone : (⟨registry.network, call.found⟩ : PeerRegistry).allocate call.publicKey =
    call.result.map fun p => (⟨registry.network, call.left⟩, p)
  unchanged : call.result = none → call.left = call.found
  stands : ∀ p, call.result = some p →
    registry.load.get? call.publicKey = some (call.publicKey, p.address)

/-- Between the two halves of `_guard`. -/
def Point.inside : Point → Prop
  | .idle => False
  | .called _ => False
  | .locked _ => False
  | .unlocked _ => False
  | _ => True

/-- What a thread may rely on where it stands. -/
def Point.Knows (registry : PeerRegistry) (tmp : PeersFile) : Point → Prop
  | .guarded _ found => registry.file = found
  | .loaded _ found peers => registry.file = found ∧ peers = registry.load
  | .storing publicKey found address peers =>
    registry.file = found ∧ Due registry publicKey address peers
  | .opened publicKey found address peers =>
    registry.file = found ∧ Due registry publicKey address peers
  | .written publicKey found address peers =>
    registry.file = found ∧ Due registry publicKey address peers ∧ tmp = .peers peers
  | .leaving publicKey found result => Settled registry ⟨publicKey, found, result, registry.file⟩
  | .unlocked call => Settled registry call
  | _ => True
where
  /-- The key has no address yet, and these are the peers with one. -/
  Due (registry : PeerRegistry) (publicKey : String) (address : Address)
      (peers : Keyed (String × Address) Prod.fst) : Prop :=
    registry.load.get? publicKey = none ∧ registry.nextFree registry.load = some address ∧
      peers = registry.load.put (publicKey, address)

/-- The lock on the file is with the thread inside the guard, if one is. -/
structure Own (t : τ) (s : Shared τ ω) (point : Point) : Prop where
  holds : s.fileLock = some t ↔ point.inside
  knows : point.Knows s.registry s.tmp

structure Kept (pool : Network) (s : Shared τ ω) : Prop where
  network : s.registry.network = pool
  written : s.registry.Written
  returned : ∀ call ∈ s.returned, Settled s.registry call

theorem Settled.keeps {r r' : PeerRegistry} (h : Settled r call)
    (hr : r.allocate k = some (r', p)) : Settled r' call where
  alone := by
    rw [PeerRegistry.allocate_network hr]
    exact h.alone
  unchanged := h.unchanged
  stands := fun q hq => PeerRegistry.allocate_keeps hr (h.stands q hq)

omit [DecidableEq ω] in
theorem Kept.store {s : Shared τ ω} (h : Kept pool s)
    (hr : s.registry.allocate k = some (registry, p)) :
    Kept pool { s with registry, tmp } where
  network := (PeerRegistry.allocate_network hr).trans h.network
  written := h.written.store hr
  returned := fun call hcall => (h.returned call hcall).keeps hr

theorem allocate_due {registry : PeerRegistry} (h : Point.Knows.Due registry k a peers) :
    registry.allocate k = some ({ registry with file := .peers peers }, ⟨k, a, true⟩) := by
  obtain ⟨hk, ha, rfl⟩ := h
  exact PeerRegistry.allocate_free hk ha

theorem settled_due {registry : PeerRegistry} (h : Point.Knows.Due registry k a peers) :
    Settled { registry with file := .peers peers }
      ⟨k, registry.file, some ⟨k, a, true⟩, .peers peers⟩ where
  alone := allocate_due h
  unchanged := fun hr => by cases hr
  stands := by
    intro p hp
    obtain rfl := Option.some.inj hp
    rw [PeerRegistry.get?_allocate (allocate_due h), if_pos rfl]

theorem move_inside {s : Shared τ ω} (h : Own t s point) (turn : Turn) (hin : point.inside) :
    ((move worker t s point turn).1.registry = s.registry ∨
      ∃ k p, s.registry.allocate k = some ((move worker t s point turn).1.registry, p)) ∧
    ((move worker t s point turn).1.fileLock = some t ∨
      (move worker t s point turn).1.fileLock = none) := by
  have hlock := h.holds.mpr hin
  have hknows := h.knows
  cases point with
  | loaded k found peers =>
    simp only [move]
    split
    · exact ⟨.inl rfl, .inl hlock⟩
    · split
      · exact ⟨.inl rfl, .inl hlock⟩
      · exact ⟨.inl rfl, .inl hlock⟩
  | written k found a peers =>
    obtain ⟨-, hdue, htmp⟩ := hknows
    refine ⟨.inr ⟨k, ⟨k, a, true⟩, ?_⟩, .inl hlock⟩
    simp only [move, htmp]
    exact allocate_due hdue
  | leaving k found result => exact ⟨.inl rfl, .inr rfl⟩
  | guarded k found => exact ⟨.inl rfl, .inl hlock⟩
  | storing k found a peers => exact ⟨.inl rfl, .inl hlock⟩
  | opened k found a peers => exact ⟨.inl rfl, .inl hlock⟩
  | idle => cases hin
  | called k => cases hin
  | locked k => cases hin
  | unlocked call => cases hin

/-- Outside it a thread only takes locks, and the one on the file only where it is free. -/
theorem move_outside {s : Shared τ ω} (turn : Turn) (hout : ¬ point.inside) :
    (move worker t s point turn).1.registry = s.registry ∧
    (move worker t s point turn).1.tmp = s.tmp ∧
    ((move worker t s point turn).1.fileLock = s.fileLock ∨
      s.fileLock = none ∧ (move worker t s point turn).1.fileLock = some t) := by
  cases point with
  | idle =>
    cases turn with
    | call k => exact ⟨rfl, rfl, .inl rfl⟩
    | go => exact ⟨rfl, rfl, .inl rfl⟩
  | called k =>
    simp only [move]
    split
    · exact ⟨rfl, rfl, .inl rfl⟩
    · exact ⟨rfl, rfl, .inl rfl⟩
  | locked k =>
    simp only [move]
    split
    · rename_i hfree
      exact ⟨rfl, rfl, .inr ⟨hfree, rfl⟩⟩
    · exact ⟨rfl, rfl, .inl rfl⟩
  | unlocked call => exact ⟨rfl, rfl, .inl rfl⟩
  | _ => exact absurd trivial hout

theorem Point.Knows.outside {registry registry' : PeerRegistry} {point : Point}
    (h : point.Knows registry tmp) (hout : ¬ point.inside)
    (hr : registry' = registry ∨ ∃ k p, registry.allocate k = some (registry', p)) :
    point.Knows registry' tmp' := by
  cases point with
  | unlocked call =>
    obtain rfl | ⟨k, p, hr⟩ := hr
    · exact h
    · exact Settled.keeps h hr
  | idle => trivial
  | called k => trivial
  | locked k => trivial
  | _ => exact absurd trivial hout

theorem own_of_others {s : Shared τ ω} {u : τ} {other : Point} (turn : Turn) (hu : u ≠ t)
    (h : Own t s point) (hother : Own u s other) :
    Own u (move worker t s point turn).1 other := by
  by_cases hin : point.inside
  · have hlock := h.holds.mpr hin
    have hout : ¬ other.inside := by
      intro hoin
      rw [hother.holds.mpr hoin] at hlock
      exact hu (Option.some.inj hlock)
    obtain ⟨hr, hl⟩ := move_inside worker h turn hin
    refine ⟨⟨?_, fun hoin => absurd hoin hout⟩, hother.knows.outside hout hr⟩
    intro hlu
    obtain hl | hl := hl
    · rw [hl] at hlu
      exact absurd (Option.some.inj hlu).symm hu
    · rw [hl] at hlu
      cases hlu
  · obtain ⟨hr, ht, hl⟩ := move_outside worker (t := t) (s := s) turn hin
    refine ⟨?_, ?_⟩
    · obtain hl | ⟨hfree, hl⟩ := hl
      · rw [hl]
        exact hother.holds
      · rw [hl]
        constructor
        · intro hlu
          exact absurd (Option.some.inj hlu).symm hu
        · intro hoin
          rw [hother.holds.mpr hoin] at hfree
          cases hfree
    · rw [hr, ht]
      exact hother.knows

theorem own_move {s : Shared τ ω} (turn : Turn) (hs : Kept pool s) (h : Own t s point) :
    Kept pool (move worker t s point turn).1 ∧
      Own t (move worker t s point turn).1 (move worker t s point turn).2 := by
  have hlock := h.holds
  have hknows := h.knows
  cases point with
  | idle =>
    cases turn with
    | call k => exact ⟨hs, hlock, trivial⟩
    | go => exact ⟨hs, hlock, trivial⟩
  | called k =>
    simp only [move]
    split
    · exact ⟨⟨hs.network, hs.written, hs.returned⟩, hlock, trivial⟩
    · exact ⟨hs, hlock, trivial⟩
  | locked k =>
    simp only [move]
    split
    · exact ⟨⟨hs.network, hs.written, hs.returned⟩, ⟨fun _ => trivial, fun _ => rfl⟩, rfl⟩
    · exact ⟨hs, hlock, trivial⟩
  | guarded k found => exact ⟨hs, hlock, hknows, rfl⟩
  | loaded k found peers =>
    obtain ⟨rfl, rfl⟩ := hknows
    simp only [move]
    split
    · rename_i e he
      refine ⟨hs, hlock, PeerRegistry.allocate_known he, (fun hr => by cases hr), ?_⟩
      intro p hp
      obtain rfl := Option.some.inj hp
      obtain ⟨key, address⟩ := e
      obtain rfl : key = k := Keyed.key_of_get? he
      exact he
    · rename_i hk
      split
      · rename_i hfree
        refine ⟨hs, hlock, ?_, fun _ => rfl, (fun p hp => by cases hp)⟩
        exact PeerRegistry.allocate_none.mpr ⟨hk, PeerRegistry.nextFree_none.mp hfree⟩
      · rename_i a ha
        exact ⟨hs, hlock, rfl, hk, ha, rfl⟩
  | storing k found a peers => exact ⟨⟨hs.network, hs.written, hs.returned⟩, hlock, hknows⟩
  | opened k found a peers =>
    exact ⟨⟨hs.network, hs.written, hs.returned⟩, hlock, hknows.1, hknows.2, rfl⟩
  | written k found a peers =>
    obtain ⟨rfl, hdue, htmp⟩ := hknows
    simp only [move, htmp]
    exact ⟨hs.store (allocate_due hdue), hlock, settled_due hdue⟩
  | leaving k found result =>
    exact ⟨⟨hs.network, hs.written, hs.returned⟩,
      ⟨(fun hl => by cases hl), (fun hin => by cases hin)⟩, hknows⟩
  | unlocked call =>
    refine ⟨⟨hs.network, hs.written, ?_⟩, hlock, trivial⟩
    intro c hc
    rcases List.mem_append.mp hc with hc | hc
    · exact hs.returned c hc
    · rw [List.mem_singleton.mp hc]
      exact hknows

variable [DecidableEq τ]

def run (registry : PeerRegistry) (turns : List (τ × Turn)) : State τ ω :=
  Runs.exec (Threads.step (move worker)) (init registry) turns

omit [DecidableEq ω] [DecidableEq τ] in
theorem held_init {registry : PeerRegistry} (h : registry.Written) :
    Threads.Held (Kept registry.network) Own (init registry : State τ ω) where
  shared := ⟨rfl, h, fun _ hcall => by cases hcall⟩
  own := fun _ => ⟨⟨(fun hlock => by cases hlock), (fun hin => by cases hin)⟩, trivial⟩

theorem held_step {s : State τ ω} (hs : Threads.Held (Kept pool) Own s) (turn : τ × Turn) :
    Threads.Held (Kept pool) Own (Threads.step (move worker) s turn) :=
  Threads.held_step (own_move worker turn.2 hs.shared (hs.own turn.1))
    fun u hu => own_of_others worker turn.2 hu (hs.own turn.1) (hs.own u)

theorem held_run {registry : PeerRegistry} (h : registry.Written) (turns : List (τ × Turn)) :
    Threads.Held (Kept registry.network) Own (run worker registry turns) :=
  Runs.exec_keeps (fun _ turn _ hs => held_step worker hs turn) (held_init h)

/-- Each step leaves the registry as it is, or is an `allocate`. -/
theorem step_registry {s : State τ ω} (hs : Threads.Held (Kept pool) Own s) (turn : τ × Turn) :
    (Threads.step (move worker) s turn).shared.registry = s.shared.registry ∨
      ∃ k p, s.shared.registry.allocate k =
        some ((Threads.step (move worker) s turn).shared.registry, p) := by
  by_cases hin : (s.own turn.1).inside
  · exact (move_inside worker (hs.own turn.1) turn.2 hin).1
  · exact .inl (move_outside worker turn.2 hin).1

theorem get?_run_append {registry : PeerRegistry} (h : registry.Written)
    (turns more : List (τ × Turn))
    (hk : (run worker registry turns).shared.registry.load.get? k = some e) :
    (run worker registry (turns ++ more)).shared.registry.load.get? k = some e := by
  rw [run, Runs.exec_append]
  refine (Runs.exec_keeps (P := fun s : State τ ω =>
    Threads.Held (Kept registry.network) Own s ∧ s.shared.registry.load.get? k = some e)
    ?_ ⟨held_run worker h turns, hk⟩).2
  rintro s turn - ⟨hs, hk⟩
  refine ⟨held_step worker hs turn, ?_⟩
  obtain hr | ⟨j, p, hr⟩ := step_registry worker hs turn
  · rw [hr, hk]
  · exact PeerRegistry.allocate_keeps hr hk

def Returned.before (network : Network) (call : Returned) : PeerRegistry :=
  ⟨network, call.found⟩

theorem allocate_interleaved (pool : Network) (file : PeersFile) (hpool : pool.prefixlen ≤ 30)
    (hfile : PeerRegistry.Written ⟨pool, file⟩) (turns : List (τ × Turn)) :
    let s := (run worker ⟨pool, file⟩ turns).shared
    s.registry.Distinct ∧
    (∀ k a, s.registry.load.get? k = some (k, a) →
      a ≠ s.registry.serverAddress ∧ pool.address < a ∧ a + 1 < pool.address + pool.size) ∧
    (∀ k a, s.registry.load.get? k = some (k, a) → ∀ more,
      (run worker ⟨pool, file⟩ (turns ++ more)).shared.registry.load.get? k = some (k, a)) ∧
    ∀ call ∈ s.returned,
      (∀ p, call.result = some p → p.publicKey = call.publicKey ∧
        s.registry.load.get? call.publicKey = some (call.publicKey, p.address)) ∧
      (∀ a, (call.before pool).load.get? call.publicKey = some (call.publicKey, a) →
        call.result = some ⟨call.publicKey, a, false⟩ ∧ call.left = call.found) ∧
      (call.result = none ↔
        (call.before pool).load.get? call.publicKey = none ∧
          ∀ host ∈ pool.hosts, host ≠ s.registry.serverAddress →
            ∃ e ∈ (call.before pool).load.values, e.2 = host) ∧
      (call.result = none → call.left = call.found) := by
  intro s
  have hs : Kept pool s := (held_run worker hfile turns).shared
  refine ⟨hs.written.distinct, ?_, fun k a hk more => get?_run_append worker hfile turns more hk,
    ?_⟩
  · intro k a hk
    obtain ⟨hhost, hserver⟩ := hs.written.issued hk
    rw [hs.network] at hhost
    exact ⟨hserver, (Network.mem_hosts hpool).mp hhost⟩
  · intro call hcall
    have hc := hs.returned call hcall
    have halone : (call.before pool).allocate call.publicKey =
        call.result.map fun p => (⟨pool, call.left⟩, p) := by
      rw [← hs.network]
      exact hc.alone
    refine ⟨?_, ?_, ?_, hc.unchanged⟩
    · intro p hp
      rw [hp] at halone
      exact ⟨(PeerRegistry.allocate_cases halone).1, hc.stands p hp⟩
    · intro a ha
      rw [PeerRegistry.allocate_known ha] at halone
      obtain ⟨p, hp, heq⟩ := Option.map_eq_some_iff.mp halone.symm
      obtain ⟨hleft, rfl⟩ := Prod.mk.inj heq
      exact ⟨hp, congrArg PeerRegistry.file hleft⟩
    · have hserver : s.registry.serverAddress = (call.before pool).serverAddress := by
        rw [PeerRegistry.serverAddress, hs.network]
        rfl
      have hnone := PeerRegistry.allocate_none (r := call.before pool) (k := call.publicKey)
      rw [halone, Option.map_eq_none_iff] at hnone
      rw [hserver]
      exact hnone

def smallPool : Network :=
  { tunnelPool with prefixlen := 30, prefixlen_le := by decide, aligned := ⟨43565056, rfl⟩ }

/-- One thread of either worker calls, and the second finds the pool used up. -/
theorem allocate_interleaved_two_workers :
    let turns : List (Bool × Turn) :=
      (false, .call "first") :: (true, .call "second") ::
        List.replicate 9 (false, .go) ++ List.replicate 9 (true, .go)
    let s := (run id ⟨smallPool, .missing⟩ turns).shared
    s.returned.map (·.result) = [some ⟨"first", 174260226, true⟩, none] ∧
    s.registry.Distinct ∧
    ∀ call ∈ s.returned, call.result = none → call.left = call.found := by
  intro turns s
  have h := allocate_interleaved id smallPool .missing (by decide) (.absent smallPool) turns
  refine ⟨by decide, h.1, ?_⟩
  intro call hcall
  exact (h.2.2.2 call hcall).2.2.2

end Workers

end Wifucked.Fabric
