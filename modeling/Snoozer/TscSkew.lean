import Snoozer.TscRounds
import Mathlib.Algebra.Order.Group.Abs
import Mathlib.Algebra.Ring.Parity
import Mathlib.Data.List.MinMax

/-! What the estimated offset between two time stamp counters is worth. The estimate halves the
round trip twice, for the midpoint and for the uncertainty, and rounds down both times. -/
namespace Snoozer
open Interactive

/-- The worker has read its counter when the controller's showed `t`. Half a round trip, rounded
down, bounds the error of the midpoint unless the round trip is odd and ends at `t`. -/
theorem midpoint_error_le_iff {before t after : ℕ} (hbefore : before ≤ t) (hafter : t ≤ after)
    (θ : ℤ) : |θ - (t + θ - ((before + (after - before) / 2 : ℕ) : ℤ))| ≤
      ((after - before) / 2 : ℕ) ↔ Even (after - before) ∨ t < after := by
  rw [abs_le, Nat.even_iff]
  omega

namespace TscRound

def roundTrip (round : TscRound) : ℕ := round.after.cycles - round.before.cycles

def offset (round : TscRound) : ℤ :=
  round.remote.cycles - ((round.before.cycles + round.roundTrip / 2 : ℕ) : ℤ)

end TscRound

/-- The readings of a run in which `rounds` were measured: the first stamps of the two threads
say where they are, and every remote value is the worker's stamp of the same round. -/
structure TscRecord (counters : TscCounters) (s : TscWorld) (localCpu remoteCpu : ℕ)
    (rounds : List TscRound) : Prop where
  controller : ∃ first : Reading, first.auxiliary = localCpu ∧
    s.readings .controller = first :: rounds.flatMap fun r => [r.before, r.after]
  worker : ∃ first : Reading, first.auxiliary = remoteCpu ∧
    s.readings .worker = first :: rounds.map TscRound.remote
  loaded : s.loaded = rounds.map fun r => r.remote.cycles
  ordered : ∀ r ∈ rounds, r.Ordered
  cycles : ∀ r ∈ rounds, r.before.cycles = counters.cycles localCpu r.before.instant ∧
    r.remote.cycles = counters.cycles remoteCpu r.remote.instant ∧
    r.after.cycles = counters.cycles localCpu r.after.instant

/-- The round an estimate is taken from: the first of the shortest ones. Should no round be
shorter than the initial best one, an estimate of zero may still agree with a round. -/
def Reported (rounds : List TscRound) (round : TscRound) : Prop :=
  (rounds.argmin TscRound.roundTrip = some round ∧ round.roundTrip < u64Max) ∨
    (round ∈ rounds ∧ (∀ r ∈ rounds, u64Max ≤ r.roundTrip) ∧ round.offset = 0)

/-- The estimate comes from a shortest round and its interval contains the true offset. -/
def SkewContained (rounds : List TscRound) (estimate : ℤ × ℕ) (θ : ℤ) : Prop :=
  (∃ r ∈ rounds, (∀ r' ∈ rounds, r.roundTrip ≤ r'.roundTrip) ∧
    estimate = (r.offset, r.roundTrip / 2)) ∧
  |θ - estimate.1| ≤ estimate.2 ∧ θ.natAbs ≤ skewBoundCycles estimate.1 estimate.2

/-- A round is reported whose round trip is even, or over after the worker's reading. -/
def SkewCentred (counters : TscCounters) (localCpu : ℕ) (rounds : List TscRound) : Prop :=
  ∃ r, Reported rounds r ∧
    (Even r.roundTrip ∨ counters.cycles localCpu r.remote.instant < r.after.cycles)

section Record

variable {counters : TscCounters} {s : TscWorld} {localCpu remoteCpu : ℕ}
  {rounds : List TscRound} {round : TscRound} {θ : ℤ}

/-- The loop keeps the first of the shortest rounds. -/
theorem foldl_improveWith (rounds : List TscRound) :
    (rounds.map TscRound.stamps).foldl BestRound.improveWith .initial =
      match rounds.argmin TscRound.roundTrip with
      | none => .initial
      | some r => if r.roundTrip < u64Max then ⟨r.roundTrip, r.offset⟩ else .initial := by
  induction rounds using List.reverseRecOn with
  | nil => rfl
  | append_singleton rounds r ih =>
    have himprove : ∀ best : BestRound, best.improveWith r.stamps =
        if r.roundTrip < best.roundTrip then ⟨r.roundTrip, r.offset⟩ else best := fun _ => rfl
    rw [List.map_append, List.foldl_append, ih, List.argmin_concat]
    simp only [List.map_cons, List.map_nil, List.foldl_cons, List.foldl_nil, himprove]
    cases hmin : rounds.argmin TscRound.roundTrip with
    | none => rfl
    | some m =>
      simp only
      by_cases hm : m.roundTrip < u64Max
      · simp only [if_pos hm]
        by_cases hr : r.roundTrip < m.roundTrip
        · simp only [if_pos hr, if_pos (hr.trans hm)]
        · simp only [if_neg hr, if_pos hm]
      · simp only [if_neg hm, BestRound.initial]
        by_cases hr : r.roundTrip < u64Max
        · simp only [if_pos hr, if_pos (hr.trans_le (not_lt.mp hm))]
        · by_cases hrm : r.roundTrip < m.roundTrip
          · simp only [if_neg hr, if_pos hrm]
          · simp only [if_neg hr, if_neg hrm, if_neg hm]

theorem TscRecord.roundTrip_le (h : TscRecord counters s localCpu remoteCpu rounds)
    (hr : round ∈ rounds) : round.roundTrip ≤ u64Max := by
  have hafter := counters.bounded localCpu round.after.instant
  rw [← (h.cycles round hr).2.2] at hafter
  exact (Nat.sub_le _ _).trans hafter

/-- The interval of a round contains the true offset when its error is within bounds. -/
theorem TscRecord.contains_iff (h : TscRecord counters s localCpu remoteCpu rounds)
    (hr : round ∈ rounds)
    (hθ : ∀ i, (counters.cycles remoteCpu i : ℤ) = counters.cycles localCpu i + θ) :
    |θ - round.offset| ≤ (round.roundTrip / 2 : ℕ) ↔
      Even round.roundTrip ∨ counters.cycles localCpu round.remote.instant < round.after.cycles := by
  obtain ⟨hbefore, hremote, hafter⟩ := h.cycles round hr
  obtain ⟨h₁, h₂⟩ := h.ordered round hr
  have hle := counters.monotone localCpu h₁.le
  have hge := counters.monotone localCpu h₂.le
  rw [← hbefore] at hle
  rw [← hafter] at hge
  have herror := midpoint_error_le_iff hle hge θ
  rw [← hθ, ← hremote] at herror
  exact herror

theorem natAbs_le_skewBoundCycles {offset : ℤ} {uncertainty : ℕ}
    (hfits : -2 ^ 63 ≤ offset ∧ offset < 2 ^ 63) (huncertainty : uncertainty ≤ u64Max)
    (h : |θ - offset| ≤ uncertainty) : θ.natAbs ≤ skewBoundCycles offset uncertainty := by
  have habs := abs_le.mp h
  apply le_min
  · omega
  · simp only [u64Max] at huncertainty
    omega

/-- A reported round is a shortest one, and the loop ends with its halves. -/
theorem TscRecord.reported (h : TscRecord counters s localCpu remoteCpu rounds)
    (hr : Reported rounds round) : round ∈ rounds ∧
      (∀ r ∈ rounds, round.roundTrip ≤ r.roundTrip) ∧
      (rounds.map TscRound.stamps).foldl BestRound.improveWith .initial =
        ⟨round.roundTrip, round.offset⟩ := by
  rw [foldl_improveWith]
  rcases hr with ⟨hmin, hlt⟩ | ⟨hmem, hmax, hzero⟩
  · refine ⟨List.argmin_mem hmin, fun r hr => List.le_of_mem_argmin hr hmin, ?_⟩
    simp only [hmin, if_pos hlt]
  · have heq := (h.roundTrip_le hmem).antisymm (hmax round hmem)
    refine ⟨hmem, fun r hr => heq ▸ hmax r hr, ?_⟩
    rw [hzero, heq]
    cases hmin : rounds.argmin TscRound.roundTrip with
    | none => rfl
    | some m =>
      simp only [if_neg (not_lt.mpr (hmax m (List.argmin_mem hmin)))]
      rfl

/-- An estimate that comes from a shortest round has a reported one. -/
theorem exists_reported (hr : round ∈ rounds) {best : BestRound}
    (hbest : best = (rounds.map TscRound.stamps).foldl BestRound.improveWith .initial)
    (hoffset : best.offset = round.offset) : ∃ r, Reported rounds r := by
  rw [foldl_improveWith] at hbest
  cases hmin : rounds.argmin TscRound.roundTrip with
  | none =>
    rw [List.argmin_eq_none.mp hmin] at hr
    cases hr
  | some m =>
    by_cases hm : m.roundTrip < u64Max
    · exact ⟨m, .inl ⟨hmin, hm⟩⟩
    · simp only [hmin, if_neg hm] at hbest
      refine ⟨round, .inr ⟨hr, fun r hr => ?_, ?_⟩⟩
      · exact (not_lt.mp hm).trans (List.le_of_mem_argmin hr hmin)
      · rw [← hoffset, hbest]
        rfl

/-- The skew is contained exactly when the best round's offset is not a rounded half. -/
theorem TscRecord.contained_iff (h : TscRecord counters s localCpu remoteCpu rounds)
    {best : BestRound}
    (hbest : best = (rounds.map TscRound.stamps).foldl BestRound.improveWith .initial)
    (hfits : -2 ^ 63 ≤ best.offset ∧ best.offset < 2 ^ 63)
    (hθ : ∀ i, (counters.cycles remoteCpu i : ℤ) = counters.cycles localCpu i + θ) :
    SkewContained rounds (best.offset, best.roundTrip / 2) θ ↔
      SkewCentred counters localCpu rounds := by
  constructor
  · rintro ⟨⟨r, hr, -, hestimate⟩, herror, -⟩
    obtain ⟨r', hr'⟩ := exists_reported hr hbest (Prod.mk.inj hestimate).1
    obtain ⟨hmem, -, hfold⟩ := h.reported hr'
    rw [hbest, hfold] at herror
    exact ⟨r', hr', (h.contains_iff hmem hθ).mp herror⟩
  · rintro ⟨r, hr, hcentred⟩
    obtain ⟨hmem, hshortest, hfold⟩ := h.reported hr
    have herror := (h.contains_iff hmem hθ).mpr hcentred
    rw [hbest, hfold] at hfits ⊢
    refine ⟨⟨r, hmem, hshortest, rfl⟩, herror, ?_⟩
    exact natAbs_le_skewBoundCycles hfits ((Nat.div_le_self _ _).trans (h.roundTrip_le hmem)) herror

end Record

/-- An estimate comes with the record of its rounds. -/
theorem tsc_record {counters : TscCounters} {samples cpu : ℕ} {cpus : TscThread → ℕ}
    {c : Pool TscThread TscOp TscAns TscResult} {s : TscWorld}
    (hr : PoolReach (tscParties counters) (tscPool samples cpu, .initial cpus) (c, s))
    {estimate : ℤ × ℕ} (hret : c .controller = .ret (.ok estimate)) :
    ∃ localCpu remoteCpu rounds, TscRecord counters s localCpu remoteCpu rounds ∧
      rounds.length = samples ∧ ∃ best : BestRound,
        best = (rounds.map TscRound.stamps).foldl BestRound.improveWith .initial ∧
        (-2 ^ 63 ≤ best.offset ∧ best.offset < 2 ^ 63) ∧
        estimate = (best.offset, best.roundTrip / 2) := by
  obtain ⟨φ, ψ, rounds, remote, hinv, hends⟩ := tsc_reach hr
  obtain ⟨reference, stamps, rfl, hlength, haccepted, hfits, hestimate⟩ := hends estimate hret
  obtain ⟨⟨rfl, first, hfirst, -, rfl, hl, hfinished, hfailed⟩, hworker, hwitnessed, hordered⟩ :=
    hinv
  rw [List.length_map] at hlength
  have hserving : ∃ (expected : Reading) (served : List Stamp),
      s.readings .worker = expected :: handed rounds none ∧
      served = (handed rounds none).map Reading.toStamp ∧
      ∀ x ∈ served, x.auxiliary ≠ expected.auxiliary → s.failed = true := by
    cases ψ with
    | starting | refused | pinned =>
      exact nomatch hworker.2.2.2.2.symm.trans hfinished
    | stamped expected => exact nomatch hworker.2.2.2.2.symm.trans hfinished
    | returned => exact absurd hfinished hworker.2.2.2
    | serving expected served stage =>
      obtain ⟨⟨reading, rfl, hreadings⟩, hnoted, h⟩ := hworker
      refine ⟨reading, served, hreadings, ?_, hnoted⟩
      cases stage with
      | awaiting => exact h.1
      | returned => exact h.1
      | requested => exact h.1
      | stamped x noted => exact h.1
      | stored x => exact h.1
  obtain ⟨expected, served, hreadings, rfl, hnoted⟩ := hserving
  have hhanded : handed rounds none = rounds.map TscRound.remote := List.append_nil _
  have haux : ∀ r ∈ rounds, r.remote.auxiliary = expected.auxiliary := by
    intro r hr
    by_contra hne
    have hmem : r.remote.toStamp ∈ (handed rounds none).map Reading.toStamp := by
      rw [hhanded]
      exact List.mem_map_of_mem (List.mem_map_of_mem hr)
    exact nomatch hfailed.symm.trans (hnoted _ hmem hne)
  refine ⟨first.auxiliary, expected.auxiliary, rounds, ⟨⟨first, rfl, ?_⟩, ⟨expected, rfl, ?_⟩, ?_,
    hordered, ?_⟩, hlength, _, rfl, ?_, hestimate⟩
  · rw [hl.readings, List.append_nil]
  · rw [hreadings, hhanded]
  · rw [hl.loaded, List.append_nil]
  · intro r hr
    obtain ⟨hbefore, hafter, -⟩ := haccepted _ (List.mem_map_of_mem hr)
    rw [← hfirst] at hbefore hafter
    have hmem : r.before ∈ s.readings .controller ∧ r.after ∈ s.readings .controller := by
      rw [hl.readings, List.append_nil]
      constructor
      · exact List.mem_cons_of_mem _ (List.mem_flatMap.mpr ⟨r, hr, List.mem_cons_self⟩)
      · exact List.mem_cons_of_mem _
          (List.mem_flatMap.mpr ⟨r, hr, List.mem_cons_of_mem _ List.mem_cons_self⟩)
    have hremote : r.remote ∈ s.readings .worker := by
      rw [hreadings, hhanded]
      exact List.mem_cons_of_mem _ (List.mem_map_of_mem hr)
    have hb := (hwitnessed _ _ hmem.1).1
    have ha := (hwitnessed _ _ hmem.2).1
    have hw := (hwitnessed _ _ hremote).1
    rw [show r.before.auxiliary = first.auxiliary from hbefore] at hb
    rw [show r.after.auxiliary = first.auxiliary from hafter] at ha
    rw [haux r hr] at hw
    exact ⟨hb, hw, ha⟩
  · rw [hestimate] at hfits
    exact hfits

/-- An estimate pairs every remote value with the stamps around it. Where one counter is ahead
of the other by `θ`, the reported interval contains `θ` exactly when a round is reported whose
round trip is even or goes on after the worker's reading. -/
theorem tsc_skew_contained_iff {counters : TscCounters} {samples cpu : ℕ} {cpus : TscThread → ℕ}
    {c : Pool TscThread TscOp TscAns TscResult} {s : TscWorld}
    (hr : PoolReach (tscParties counters) (tscPool samples cpu, .initial cpus) (c, s))
    {estimate : ℤ × ℕ} (hret : c .controller = .ret (.ok estimate)) :
    ∃ localCpu remoteCpu rounds, TscRecord counters s localCpu remoteCpu rounds ∧
      rounds.length = samples ∧
      ∀ θ : ℤ, (∀ i, (counters.cycles remoteCpu i : ℤ) = counters.cycles localCpu i + θ) →
        (SkewContained rounds estimate θ ↔ SkewCentred counters localCpu rounds) := by
  obtain ⟨localCpu, remoteCpu, rounds, hrecord, hlength, best, hbest, hfits, rfl⟩ :=
    tsc_record hr hret
  exact ⟨localCpu, remoteCpu, rounds, hrecord, hlength,
    fun θ hθ => hrecord.contained_iff hbest hfits hθ⟩

/-- Threads that stamp at consecutive instants; a reader that would wait has to come back. -/
def serveTsc (counters : TscCounters) (r : TscThread) : Server TscOp TscAns TscWorld
  | .pinCurrent cpu, s => some (.ok (), { s with cpu := Function.update s.cpu r cpu })
  | .stamp, s =>
    let x : Stamp := ⟨counters.cycles (s.cpu r) (s.instant + 1), s.cpu r⟩
    some (x, s.read r ⟨x, s.instant + 1⟩)
  | .loadReady, s => if s.ready then some (true, s) else none
  | .storeReady, s => some ((), { s with ready := true })
  | .storeRequest sequence, s => some ((), { s with request := sequence })
  | .loadRequest, s => if s.request = s.response + 1 then some (s.request, s) else none
  | .storeResponse sequence, s => some ((), { s with response := sequence })
  | .loadResponse, s => if s.response = s.request then some (s.response, s) else none
  | .storeRemoteCycles cycles, s => some ((), { s with remoteCycles := cycles })
  | .loadRemoteCycles, s =>
    some (s.remoteCycles, { s with loaded := s.loaded ++ [s.remoteCycles] })
  | .loadFailed, s => some (s.failed, s)
  | .finish result, s => some ((), { s with finished := some result })
  | .join, s => if s.finished.isSome then some (s.finished, s) else none
  | _, _ => none

/-- A served call is one that the two threads are allowed. -/
theorem serveTsc_act {counters : TscCounters} {r : TscThread} {op : TscOp} {s s' : TscWorld}
    {x : TscAns op} (h : serveTsc counters r op s = some (x, s')) :
    (tscParties counters).act r op s x s' := by
  cases op with
  | stamp =>
    cases h
    exact ⟨s.instant + 1, Nat.lt_succ_self _, rfl, rfl⟩
  | pinCurrent cpu | storeReady | storeRequest sequence | storeResponse sequence
  | storeRemoteCycles cycles | finish result =>
    cases h
    rfl
  | loadRemoteCycles | loadFailed =>
    cases h
    exact ⟨rfl, rfl⟩
  | loadReady =>
    simp only [serveTsc] at h
    split at h
    · next hready =>
      cases h
      exact ⟨hready.symm, rfl⟩
    · cases h
  | loadRequest | loadResponse =>
    simp only [serveTsc] at h
    split at h
    · cases h
      exact ⟨rfl, rfl⟩
    · cases h
  | join =>
    simp only [serveTsc] at h
    split at h
    · next hfinished =>
      cases h
      exact ⟨hfinished, rfl, rfl⟩
    · cases h
  | _ => cases h

/-- One round; the controller is on processor 0 and the worker on processor 1. -/
def sampleSkew (counters : TscCounters) : Pool TscThread TscOp TscAns TscResult × TscWorld :=
  Pool.play (serveTsc counters)
    [(.worker, 20), (.controller, 20), (.worker, 20), (.controller, 20)]
    (tscPool 1 1, .initial fun _ => 0)

theorem sampleSkew_reach (counters : TscCounters) :
    PoolReach (tscParties counters) (tscPool 1 1, .initial fun _ => 0)
      ((sampleSkew counters).1, (sampleSkew counters).2) := by
  rw [Prod.mk.eta]
  exact (Pool.play_reach (I := fun _ => True) (fun _ _ _ _ _ _ h => ⟨serveTsc_act h, trivial⟩)
    _ _ _ trivial).1

/-- The counters of all processors advance by one every `period` instants. -/
def steadyCounters (period : ℕ) : TscCounters where
  cycles _ instant := min (instant / period) u64Max
  monotone _ _ _ h := min_le_min_right _ (Nat.div_le_div_right h)
  bounded _ _ := min_le_right _ _

theorem steadyCounters_offset (period localCpu remoteCpu : ℕ) (i : ℕ) :
    ((steadyCounters period).cycles remoteCpu i : ℤ) =
      (steadyCounters period).cycles localCpu i + 0 := (add_zero _).symm

def evenRound : TscRound := ⟨⟨⟨3, 0⟩, 3⟩, ⟨⟨4, 1⟩, 4⟩, ⟨⟨5, 0⟩, 5⟩⟩

/-- A round of two cycles with the worker's reading in the middle: the estimate contains the offset,
which is zero. -/
theorem tsc_skew_contained_sample : ∃ c s, PoolReach (tscParties (steadyCounters 1))
      (tscPool 1 1, .initial fun _ => 0) (c, s) ∧ c .controller = .ret (.ok (0, 1)) ∧
    SkewContained [evenRound] (0, 1) 0 := by
  have hended : ((sampleSkew (steadyCounters 1)).1 .controller).ended = some (.ok (0, 1)) := by
    decide +kernel
  have hcontroller : (sampleSkew (steadyCounters 1)).2.readings .controller =
      [⟨⟨2, 0⟩, 2⟩, evenRound.before, evenRound.after] := by decide +kernel
  have hworker : (sampleSkew (steadyCounters 1)).2.readings .worker =
      [⟨⟨1, 1⟩, 1⟩, evenRound.remote] := by decide +kernel
  obtain ⟨localCpu, remoteCpu, rounds, hrecord, hlength, hiff⟩ :=
    tsc_skew_contained_iff (sampleSkew_reach (steadyCounters 1)) (Prog.ended_eq_some hended)
  -- the readings of the run are those of one round
  obtain ⟨⟨before, remote, after⟩, rfl⟩ := List.length_eq_one_iff.mp hlength
  obtain ⟨_, _, hreadings⟩ := hrecord.controller
  rw [hcontroller] at hreadings
  obtain ⟨_, rfl, rfl, -⟩ : _ ∧ evenRound.before = before ∧ evenRound.after = after ∧ True := by
    simpa using hreadings
  obtain ⟨_, _, hremote⟩ := hrecord.worker
  rw [hworker] at hremote
  obtain ⟨_, rfl⟩ : _ ∧ evenRound.remote = remote := by simpa using hremote
  have hcentred : SkewCentred (steadyCounters 1) localCpu [evenRound] :=
    ⟨evenRound, Or.inl ⟨rfl, by decide⟩, Or.inl (by decide)⟩
  exact ⟨_, _, sampleSkew_reach _, Prog.ended_eq_some hended,
    (hiff 0 (steadyCounters_offset 1 localCpu remoteCpu)).mpr hcentred⟩

def oddRound : TscRound := ⟨⟨⟨1, 0⟩, 3⟩, ⟨⟨2, 1⟩, 4⟩, ⟨⟨2, 0⟩, 5⟩⟩

/-- The counters agree, a round takes one cycle, which passes before the worker's reading, and
the estimate is one cycle with no uncertainty. -/
theorem tsc_skew_escapes : ∃ c s, PoolReach (tscParties (steadyCounters 2))
      (tscPool 1 1, .initial fun _ => 0) (c, s) ∧ c .controller = .ret (.ok (1, 0)) ∧
    TscRecord (steadyCounters 2) s 0 1 [oddRound] ∧
    (∀ i, ((steadyCounters 2).cycles 1 i : ℤ) = (steadyCounters 2).cycles 0 i + 0) ∧
    ¬ |(0 : ℤ) - 1| ≤ (0 : ℕ) ∧ ¬ SkewContained [oddRound] (1, 0) 0 := by
  have hended : ((sampleSkew (steadyCounters 2)).1 .controller).ended = some (.ok (1, 0)) := by
    decide +kernel
  have hcontroller : (sampleSkew (steadyCounters 2)).2.readings .controller =
      ⟨⟨1, 0⟩, 2⟩ :: [oddRound].flatMap fun r => [r.before, r.after] := by decide +kernel
  have hworker : (sampleSkew (steadyCounters 2)).2.readings .worker =
      ⟨⟨0, 1⟩, 1⟩ :: [oddRound].map TscRound.remote := by decide +kernel
  have hloaded : (sampleSkew (steadyCounters 2)).2.loaded =
      [oddRound].map fun r => r.remote.cycles := by decide +kernel
  refine ⟨_, _, sampleSkew_reach _, Prog.ended_eq_some hended, ⟨⟨_, rfl, hcontroller⟩,
    ⟨_, rfl, hworker⟩, hloaded, ?_, ?_⟩, steadyCounters_offset 2 0 1, by decide, ?_⟩
  · intro r hr
    rw [List.mem_singleton] at hr
    subst hr
    exact ⟨by decide, by decide⟩
  · intro r hr
    rw [List.mem_singleton] at hr
    subst hr
    exact ⟨by decide, by decide, by decide⟩
  · rintro ⟨-, herror, -⟩
    exact absurd herror (by decide)

end Snoozer
