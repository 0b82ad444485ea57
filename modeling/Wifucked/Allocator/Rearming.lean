import Wifucked.Allocator.Dwell

/-!
# What an activation has waited for

An activation waits out its dwell in the arming state. Arming is entered on a
deficit from rest, but from a release as soon as the surplus is gone, deficit
or not, and the dwell counts from there.
-/

namespace Wifucked.Allocator

theorem mem_or_mem_of_append_eq {α : Type u} {xs ys zs ws : List α} {x y : α}
    (h : xs ++ x :: ys = zs ++ y :: ws) : y ∈ x :: ys ∨ x ∈ y :: ws := by
  rcases List.append_eq_append_iff.mp h with ⟨mid, -, hmid⟩ | ⟨mid, -, hmid⟩
  · left; simp [hmid]
  · right; simp [hmid]

section

variable {K : Type} [Field K] [LinearOrder K] {t : Thresholds K} {now : K}
  {deficit surplus backup : Prop} {x y : Timer K}

theorem Move.into_arming (h : Move t now deficit surplus backup x y) (hy : y.state = .arming) :
    y.since = now ∧ (x.state = .idle ∧ deficit ∧ backup ∨ x.state = .releasing ∧ ¬surplus) ∨
      (x.state = .arming ∧ y.since = x.since) ∧ deficit ∧ backup ∧
        now - x.since < t.activationDwellS := by
  cases h with
  | arm hd hb => exact .inl ⟨rfl, .inl ⟨rfl, hd, hb⟩⟩
  | wait hd hb he => exact .inr ⟨⟨rfl, rfl⟩, hd, hb, he⟩
  | rearm hs => exact .inl ⟨rfl, .inr ⟨rfl, hs⟩⟩
  | _ => cases hy

theorem Move.from_arming (h : Move t now deficit surplus backup x y) (hx : x.state = .arming)
    (hd : deficit) (hb : backup) :
    now - x.since < t.activationDwellS ∧ y.state = .arming ∧ y.since = x.since ∨
      t.activationDwellS ≤ now - x.since ∧ y.state = .active := by
  cases h with
  | disarm hn => exact absurd hn (by simp [hd, hb])
  | wait _ _ he => exact .inl ⟨he, rfl, rfl⟩
  | activate _ _ he => exact .inr ⟨he, rfl⟩
  | _ => cases hx

theorem Move.from_releasing (h : Move t now deficit surplus backup x y)
    (hx : x.state = .releasing) (hs : ¬surplus) : y.state = .arming ∧ y.since = now := by
  cases h with
  | rearm => exact ⟨rfl, rfl⟩
  | cool h => exact absurd h hs
  | retire h => exact absurd h hs
  | _ => cases hx

end

section

variable {K : Type} [Field K] [LinearOrder K] [HalfPow K]

/-- The call finds a deficit, and a backup that could take it. -/
def Short (a : Allocator K) (i : DecideInput K) : Prop := a.InDeficit i ∧ HaveBackup i

def Activates (a : Allocator K) (pre : List (DecideInput K)) (i : DecideInput K) : Prop :=
  (a.after pre).backupActive = false ∧ ((a.after pre).decide i).backupActive = true

/-- The deficit was there at every call of a span that ends at `i` and is at
least the activation dwell long. -/
def DeficitSustained (a : Allocator K) (pre : List (DecideInput K)) (i : DecideInput K) : Prop :=
  ∃ before first span, pre ++ [i] = before ++ first :: span ∧
    (∀ j ∈ first :: span, a.Short j) ∧ a.t.activationDwellS ≤ i.now - first.now

/-- A release was aborted by a call that was not short, the dwell has elapsed
since that call, and not since any of the short calls after it. -/
def Bounces (a : Allocator K) (pre : List (DecideInput K)) (i : DecideInput K) : Prop :=
  ∃ before first span, pre = before ++ first :: span ∧
    ((a.after before).h.state = .releasing ∧ ¬a.Recovered first ∧ ¬a.Short first) ∧
    (∀ j ∈ span, a.Short j ∧ j.now - first.now < a.t.activationDwellS) ∧
    a.Short i ∧ a.t.activationDwellS ≤ i.now - first.now ∧
    ∀ j ∈ span ++ [i], i.now - j.now < a.t.activationDwellS

theorem short_after (a : Allocator K) (pre : List (DecideInput K)) (i : DecideInput K) :
    (a.after pre).Short i ↔ a.Short i := by
  obtain ⟨ht, hp⟩ := a.after_config pre
  simp only [Short, InDeficit, normalCapacity, criticalDemand, ht, hp]

theorem decide_arming {a : Allocator K} {i : DecideInput K} (h : a.h.state = .arming)
    (hi : a.Short i) (hwithin : i.now - a.h.since < a.t.activationDwellS) :
    (a.decide i).h.state = .arming ∧ (a.decide i).h.since = a.h.since := by
  rcases (a.decide_move i).from_arming h hi.1 hi.2 with ⟨-, hstep⟩ | ⟨he, -⟩
  · exact hstep
  · exact absurd hwithin he.not_gt

theorem decide_elapsed {a : Allocator K} {i : DecideInput K} (h : a.h.state = .arming)
    (hi : a.Short i) (he : a.t.activationDwellS ≤ i.now - a.h.since) :
    (a.decide i).h.state = .active := by
  rcases (a.decide_move i).from_arming h hi.1 hi.2 with ⟨hwithin, -⟩ | ⟨-, hstep⟩
  · exact absurd hwithin he.not_gt
  · exact hstep

theorem after_append (a : Allocator K) (pre post : List (DecideInput K)) :
    a.after (pre ++ post) = (a.after pre).after post := Runs.exec_append _ _ _ _

/-- How a run came to be arming: the call it entered the state at, and short
calls within the dwell since. -/
theorem arming_since (t : Thresholds K) (profiles : List ServiceProfile) (now₀ : K)
    (pre : List (DecideInput K)) :
    let a := init t profiles now₀
    (a.after pre).h.state = .arming → ∃ before first span, pre = before ++ first :: span ∧
      (a.after pre).h.since = first.now ∧
      (a.Short first ∨ (a.after before).h.state = .releasing ∧ ¬a.Recovered first) ∧
      ∀ j ∈ span, a.Short j ∧ j.now - first.now < t.activationDwellS := by
  intro a harming
  induction pre using List.reverseRecOn with
  | nil => cases harming
  | append_singleton pre i ih =>
    rw [after_concat] at harming ⊢
    have ht : (a.after pre).t = t := (a.after_config pre).1
    rcases ((a.after pre).decide_move i).into_arming harming with
      ⟨hsince, hentry⟩ | ⟨⟨hx, hsince⟩, hd, hb, hwithin⟩
    · refine ⟨pre, i, [], rfl, hsince, ?_, by simp⟩
      rcases hentry with ⟨-, hshort⟩ | ⟨hx, hr⟩
      · exact .inl ((short_after a pre i).mp hshort)
      · exact .inr ⟨hx, by rwa [recovered_after] at hr⟩
    · obtain ⟨before, first, span, hpre, hfirst, hentry, hspan⟩ := ih hx
      refine ⟨before, first, span ++ [i], by simp [hpre], hsince.trans hfirst, hentry, ?_⟩
      intro j hj
      rcases List.mem_append.mp hj with hj | hj
      · exact hspan j hj
      · obtain rfl := List.mem_singleton.mp hj
        refine ⟨(short_after a pre j).mp ⟨hd, hb⟩, ?_⟩
        rw [ht] at hwithin
        rwa [← hfirst]

theorem after_short {a : Allocator K} (h : a.h.state = .arming) {span : List (DecideInput K)}
    (hspan : ∀ j ∈ span, a.Short j ∧ j.now - a.h.since < a.t.activationDwellS) :
    (a.after span).h.state = .arming ∧ (a.after span).h.since = a.h.since := by
  induction span generalizing a with
  | nil => exact ⟨h, rfl⟩
  | cons j span ih =>
    obtain ⟨⟨hj, hwithin⟩, hspan⟩ := List.forall_mem_cons.mp hspan
    obtain ⟨hstate, hsince⟩ := decide_arming h hj hwithin
    obtain ⟨hend, hkept⟩ := ih hstate fun k hk => by rw [hsince]; exact hspan k hk
    exact ⟨hend, hkept.trans hsince⟩

theorem activates_iff (t : Thresholds K) (profiles : List ServiceProfile) (now₀ : K)
    (pre : List (DecideInput K)) (i : DecideInput K) :
    let a := init t profiles now₀
    a.Activates pre i ↔ (a.after pre).h.state = .arming ∧ a.Short i ∧
      t.activationDwellS ≤ i.now - (a.after pre).h.since := by
  intro a
  have ht : (a.after pre).t = t := (a.after_config pre).1
  rw [Activates, ← Bool.not_eq_true, after_active, backupActive_decide, ← short_after a pre]
  constructor
  · rintro ⟨hoff, hon⟩
    obtain ⟨hb, ⟨hx, -⟩ | ⟨hx, hd, he⟩⟩ := ((a.after pre).decide_move i).to_active hon
    · exact absurd hx hoff
    · exact ⟨hx, ⟨hd, hb⟩, by rwa [ht] at he⟩
  · rintro ⟨hx, ⟨hd, hb⟩, he⟩
    exact ⟨by rw [hx]; simp, decide_elapsed hx ⟨hd, hb⟩ (by rwa [ht])⟩

/-- An activation that has not waited for its deficit is a bounce. -/
theorem bounces_iff (t : Thresholds K) (profiles : List ServiceProfile) (now₀ : K)
    (pre : List (DecideInput K)) (i : DecideInput K) :
    let a := init t profiles now₀
    a.Bounces pre i ↔ a.Activates pre i ∧ ¬a.DeficitSustained pre i := by
  intro a
  have hact : a.Activates pre i ↔ (a.after pre).h.state = .arming ∧ a.Short i ∧
      t.activationDwellS ≤ i.now - (a.after pre).h.since := activates_iff t profiles now₀ pre i
  rw [hact]
  constructor
  · rintro ⟨before, first, span, rfl, ⟨hx, hr, hn⟩, hspan, hi, he, hrecent⟩
    obtain ⟨hstate, hsince⟩ : (a.after (before ++ [first])).h.state = .arming ∧
        (a.after (before ++ [first])).h.since = first.now := by
      rw [after_concat]
      exact ((a.after before).decide_move first).from_releasing hx (by rwa [recovered_after])
    have hwait : ∀ j ∈ span, (a.after (before ++ [first])).Short j ∧
        j.now - (a.after (before ++ [first])).h.since <
          (a.after (before ++ [first])).t.activationDwellS := by
      intro j hj
      rw [short_after, hsince, (a.after_config _).1]
      exact hspan j hj
    obtain ⟨hend, hkept⟩ := after_short hstate hwait
    rw [← after_append, List.append_assoc, List.singleton_append] at hend hkept
    refine ⟨⟨hend, hi, by rwa [hkept, hsince]⟩, ?_⟩
    rintro ⟨before', start, span', hsplit, hshort, hlong⟩
    -- A span that long starts no later than the call that was not short.
    rw [List.append_assoc, List.cons_append] at hsplit
    rcases mem_or_mem_of_append_eq hsplit with hstart | hfirst
    · rcases List.mem_cons.mp hstart with rfl | hstart
      · exact hn (hshort start List.mem_cons_self)
      · exact (hrecent start hstart).not_ge hlong
    · exact hn (hshort first hfirst)
  · rintro ⟨⟨hx, hi, he⟩, hnot⟩
    obtain ⟨before, first, span, rfl, hsince, hentry, hspan⟩ := arming_since t profiles now₀ pre hx
    rw [hsince] at he
    have hall : ∀ j ∈ span ++ [i], a.Short j := by
      intro j hj
      rcases List.mem_append.mp hj with hj | hj
      · exact (hspan j hj).1
      · exact List.mem_singleton.mp hj ▸ hi
    have hfirst : ¬a.Short first := fun hf =>
      hnot ⟨before, first, span ++ [i], by simp, List.forall_mem_cons.mpr ⟨hf, hall⟩, he⟩
    obtain ⟨hrel, hr⟩ := hentry.resolve_left hfirst
    refine ⟨before, first, span, rfl, ⟨hrel, hr, hfirst⟩, hspan, hi, he, fun j hj => ?_⟩
    by_contra hlong
    obtain ⟨early, late, hsplit⟩ := List.append_of_mem hj
    refine hnot ⟨before ++ first :: early, j, late, ?_, fun k hk => hall k ?_, not_lt.mp hlong⟩
    · rw [List.append_assoc, List.cons_append, hsplit]
      simp
    · rw [hsplit]
      exact List.mem_append_right _ hk

/-- Every activation has waited out a deficit exactly where no release is
aborted into one that has not lasted. -/
theorem activations_sustained_iff (t : Thresholds K) (profiles : List ServiceProfile) (now₀ : K)
    (is : List (DecideInput K)) :
    let a := init t profiles now₀
    (∀ pre i post, is = pre ++ i :: post → a.Activates pre i → a.DeficitSustained pre i) ↔
      ∀ pre i post, is = pre ++ i :: post → ¬a.Bounces pre i := by
  intro a
  constructor
  · intro h pre i post he hb
    obtain ⟨hact, hnot⟩ := (bounces_iff t profiles now₀ pre i).mp hb
    exact hnot (h pre i post he hact)
  · intro h pre i post he hact
    by_contra hnot
    exact h pre i post he ((bounces_iff t profiles now₀ pre i).mpr ⟨hact, hnot⟩)

end

/-- A lucky sample releases the backup, and the next one is neither a deficit
nor a surplus. -/
def unluckySample : List (DecideInput ℚ) := luckySample ++ [campsite 121 0, campsite 122 1200000]

/-- One sample in deficit puts traffic back onto the backup. -/
theorem activation_not_sustained :
    let a := init (Thresholds.defaults ℚ) defaultProfiles 0
    Clocked (unluckySample ++ [campsite 242 2000000]) ∧
      a.Activates unluckySample (campsite 242 2000000) ∧
      ¬a.DeficitSustained unluckySample (campsite 242 2000000) := by
  intro a
  refine ⟨?_, (bounces_iff (Thresholds.defaults ℚ) defaultProfiles 0 _ _).mp
    ⟨luckySample ++ [campsite 121 0], campsite 122 1200000, [], by rfl, ⟨by decide +kernel, ?_, ?_⟩,
      by simp, ⟨?_, ?_⟩, ?_, ?_⟩⟩
  · simp only [Clocked, unluckySample, luckySample, campsite]
    norm_num
  · simp only [Recovered, recovered]
    decide +kernel
  · refine mt And.left ?_
    simp only [InDeficit, inDeficit]
    decide +kernel
  · simp only [InDeficit, inDeficit]
    decide +kernel
  · exact ⟨unmeasured "phone" .usbTether .backup, by decide, by decide⟩
  · show (120 : ℚ) ≤ 242 - 122
    norm_num
  · intro j hj
    obtain rfl := List.mem_singleton.mp hj
    show (242 : ℚ) - 242 < 120
    norm_num

end Wifucked.Allocator
