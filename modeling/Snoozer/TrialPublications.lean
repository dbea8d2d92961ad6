import Snoozer.TrialStartup
import Mathlib.Data.List.Range

/-! The producer publishes a generation only when the one before is acknowledged, and the waiter
acknowledges a generation only after it has read the time stamp that was stored for it. Whatever the
threads do to shut the trial down comes after `stop`. -/
namespace Snoozer.WakeLatency

namespace WaiterPc

/-- The event that is recorded but not acknowledged. -/
def pending : WaiterPc → ℕ
  | storeStop _ | storeAcknowledged _ => 1
  | _ => 0

/-- The increments of the generation that the waiter has made. -/
def increments : WaiterPc → ℕ
  | returned (.error (.pin _)) => 1
  | _ => 0

/-- With `recorded` events recorded and `published` generations published. -/
def Fits (stop : Bool) (recorded published : ℕ) : WaiterPc → Prop
  | announceReady observed | loadGo observed | loadStopAtStart observed =>
    stop = true ∨ observed = 0
  | waitDirect observed _ | reloadGeneration observed _ | compareGeneration observed _
  | park observed _ | countWake observed _ => observed = recorded % 2 ^ 64
  | rereadGeneration _ _ => stop = true ∨ published = recorded + 1
  | loadStop observed _ =>
    stop = true ∨ published = recorded + 1 ∧ observed = (recorded + 1) % 2 ^ 64
  | stamp observed _ | loadSent observed _ _ =>
    published = recorded + 1 ∧ observed = (recorded + 1) % 2 ^ 64
  | storeStop observed | storeAcknowledged observed => observed = recorded % 2 ^ 64
  | _ => True

end WaiterPc

namespace ProducerPc

def increments : ProducerPc → ℕ
  | wakeAborted _ | exitWake | returned _ => 1
  | _ => 0

/-- The producer has not yet looked at the trial. -/
def idle : ProducerPc → Bool
  | unspawned | pinCurrent | announceReady | loadGo => true
  | _ => false

/-- With `acknowledged` generations acknowledged and `published` of them published. -/
def Fits (stop : Bool) (acknowledged published sentCycles : ℕ) : ProducerPc → Prop
  | loadStop sequence | loadAcknowledged sequence | loadStopUnacknowledged sequence
  | wake sequence => sequence = published % 2 ^ 64
  | loadStopAfterWait sequence =>
    sequence = published % 2 ^ 64 ∧ (stop = true ∨ acknowledged = published)
  | cancellableGap sequence | loadStopAfterGap sequence =>
    sequence = published % 2 ^ 64 ∧ acknowledged = published
  | stamp sequence | storeSent sequence _ =>
    sequence = (published + 1) % 2 ^ 64 ∧ acknowledged = published
  | storeGeneration sequence sent =>
    sequence = (published + 1) % 2 ^ 64 ∧ acknowledged = published ∧ sentCycles = sent
  | _ => True

end ProducerPc

def VictimPc.increments : VictimPc → ℕ
  | returned (.error (.pin _)) => 1
  | _ => 0

def ControllerPc.increments : ControllerPc → ℕ
  | returned (.error .startupTimeout) => 1
  | _ => 0

/-- The samples that the waiter has recorded are those of the first generations, each with the time
stamp of its own publication; `acked` of them are acknowledged. -/
structure Publications (t : Trial) (acked : ℕ) : Prop where
  count : t.locals.recorded.length = acked + t.waiter.pending
  acknowledged : t.shared.acknowledged = acked % 2 ^ 64
  recorded_le : t.locals.recorded.length ≤ t.published.length
  published_le : t.published.length ≤ acked + 1
  generation : t.shared.generation = (t.published.length + t.shutdowns.length) % 2 ^ 64
  shutdowns : t.shutdowns =
    (List.range t.shutdowns.length).map fun i => (t.published.length + i + 1) % 2 ^ 64
  increments : t.shutdowns.length = t.waiter.increments + t.producer.increments +
    t.victim.increments + t.controller.increments
  waiter : t.waiter.Fits t.shared.stop t.locals.recorded.length t.published.length
  producer : t.producer.Fits t.shared.stop acked t.published.length t.shared.sentCycles
  published : t.published.map Publication.generation =
    (List.range t.published.length).map fun i => (i + 1) % 2 ^ 64
  sent : t.published.length = acked + 1 →
    t.published.getLast? = some ⟨t.published.length % 2 ^ 64, t.shared.sentCycles⟩
  samples : t.locals.recorded.map Wake.publication <+: t.published
  waiterIdle : t.waiter.running = false → t.locals.recorded = []
  producerIdle : t.producer.idle = true → t.published = []
  unlaunched : t.controller.launched = false → t.published = []

variable {config : TrialConfig} {chance : Chance} {t t' : Trial} {acked : ℕ}

/-- A new trial has published nothing. -/
theorem publications_new (config : TrialConfig) : Publications (.new config) 0 where
  count := rfl
  acknowledged := rfl
  recorded_le := le_refl 0
  published_le := Nat.zero_le 1
  generation := rfl
  shutdowns := rfl
  increments := by
    unfold Trial.new
    split <;> rfl
  waiter := trivial
  producer := trivial
  published := rfl
  sent := fun h => absurd h Nat.zero_ne_one
  samples := List.nil_prefix
  waiterIdle := fun _ => rfl
  producerIdle := fun _ => rfl
  unlaunched := fun _ => rfl

theorem WaiterPc.Fits.stop {p : WaiterPc} {stop : Bool} {recorded published : ℕ}
    (h : p.Fits stop recorded published) : p.Fits true recorded published := by
  cases p with
  | announceReady | loadGo | loadStopAtStart | rereadGeneration | loadStop => exact .inl rfl
  | _ => exact h

theorem ProducerPc.Fits.stop {p : ProducerPc} {stop : Bool} {acknowledged published sent : ℕ}
    (h : p.Fits stop acknowledged published sent) : p.Fits true acknowledged published sent := by
  cases p with
  | loadStopAfterWait => exact ⟨h.1, .inl rfl⟩
  | _ => exact h

/-- While a generation is unacknowledged, the producer is not about to publish the next one. -/
theorem ProducerPc.Fits.acknowledge {p : ProducerPc} {stop : Bool} {acked published sent : ℕ}
    (h : p.Fits stop acked published sent) (hlt : acked < published) :
    p.Fits stop (acked + 1) published sent := by
  have hne := hlt.ne
  cases p with
  | loadStopAfterWait => exact ⟨h.1, .inl (h.2.resolve_right hne)⟩
  | cancellableGap => exact absurd h.2 hne
  | loadStopAfterGap => exact absurd h.2 hne
  | stamp => exact absurd h.2 hne
  | storeSent => exact absurd h.2 hne
  | storeGeneration => exact absurd h.2.1 hne
  | _ => exact h

/-- A waiter that has recorded everything waits, or the trial is stopped. -/
theorem WaiterPc.Fits.publish {p : WaiterPc} {stop : Bool} {recorded published : ℕ}
    (h : p.Fits stop recorded published) (hne : published ≠ recorded + 1) :
    p.Fits stop recorded (published + 1) := by
  cases p with
  | rereadGeneration => exact .inl (h.resolve_right hne)
  | loadStop => exact .inl (h.resolve_right fun hnext => hne hnext.1)
  | stamp => exact absurd h.1 hne
  | loadSent => exact absurd h.1 hne
  | _ => exact h

theorem WaiterPc.increments_of_announced {p : WaiterPc} (h : p.announced = true) :
    p.increments = 0 := by
  unfold WaiterPc.increments
  split
  · cases h
  · rfl

theorem VictimPc.increments_of_announced {p : VictimPc} (h : p.announced = true) :
    p.increments = 0 := by
  unfold VictimPc.increments
  split
  · cases h
  · rfl

theorem ControllerPc.increments_of_launched {p : ControllerPc} (h : p.launched = true) :
    p.increments = 0 := by
  unfold ControllerPc.increments
  split
  · cases h
  · rfl

theorem next_sequence {sequence published : ℕ} (h : sequence = published % 2 ^ 64) :
    wrappingAdd64 sequence 1 = (published + 1) % 2 ^ 64 := by
  unfold wrappingAdd64
  omega

namespace Publications

/-- The number of recorded events when none is pending. -/
theorem recorded_eq (h : Publications t acked) (hpending : t.waiter.pending = 0) :
    t.locals.recorded.length = acked := by
  rw [h.count, hpending, Nat.add_zero]

theorem storeStop (h : Publications t acked) : Publications t.storeStop acked :=
  { h with
    waiter := h.waiter.stop
    producer := h.producer.stop }

theorem storeGo (h : Publications t acked) : Publications t.storeGo acked := { h with }

theorem addReady (h : Publications t acked) : Publications t.addReady acked :=
  { h with }

theorem wake (h : Publications t acked) (surface : Surface) :
    Publications (t.wake surface) acked := { h with }

theorem tokenChanged (h : Publications t acked) (token : UInt32) :
    Publications { t with token := token } acked := { h with }

theorem reference (h : Publications t acked) (auxiliary : ℕ) :
    Publications { t with waiterAux := auxiliary } acked := { h with }

/-- A step of the waiter that publishes nothing. -/
theorem moveWaiter (h : Publications t acked) {p : WaiterPc}
    (hpending : p.pending = t.waiter.pending) (hincrements : p.increments = t.waiter.increments)
    (hfits : p.Fits t.shared.stop t.locals.recorded.length t.published.length)
    (hrunning : p.running = false → t.waiter.running = false) :
    Publications { t with waiter := p } acked :=
  { h with
    count := by
      rw [h.count, ← hpending]
    increments := by
      rw [h.increments, ← hincrements]
    waiter := hfits
    waiterIdle := fun hidle => h.waiterIdle (hrunning hidle) }

theorem moveProducer (h : Publications t acked) {p : ProducerPc}
    (hincrements : p.increments = t.producer.increments)
    (hfits : p.Fits t.shared.stop acked t.published.length t.shared.sentCycles)
    (hidle : p.idle = true → t.producer.idle = true) :
    Publications { t with producer := p } acked :=
  { h with
    increments := by
      rw [h.increments, ← hincrements]
    producer := hfits
    producerIdle := fun hpc => h.producerIdle (hidle hpc) }

theorem moveVictim (h : Publications t acked) {p : VictimPc}
    (hincrements : p.increments = t.victim.increments) :
    Publications { t with victim := p } acked :=
  { h with
    increments := by
      rw [h.increments, ← hincrements] }

theorem moveController (h : Publications t acked) {p : ControllerPc}
    (hincrements : p.increments = t.controller.increments)
    (hlaunched : p.launched = false → t.published = []) :
    Publications { t with controller := p } acked :=
  { h with
    increments := by
      rw [h.increments, ← hincrements]
    unlaunched := hlaunched }

theorem addGeneration_generation (h : Publications t acked) : t.addGeneration.shared.generation =
    (t.published.length + t.addGeneration.shutdowns.length) % 2 ^ 64 := by
  have hgeneration := h.generation
  simp only [Trial.addGeneration, wrappingAdd64, List.length_append, List.length_singleton]
  omega

theorem addGeneration_shutdowns (h : Publications t acked) : t.addGeneration.shutdowns =
    (List.range t.addGeneration.shutdowns.length).map
      fun i => (t.published.length + i + 1) % 2 ^ 64 := by
  have hvalue : wrappingAdd64 t.shared.generation 1 =
      (t.published.length + t.shutdowns.length + 1) % 2 ^ 64 := by
    rw [h.generation]
    unfold wrappingAdd64
    omega
  simp only [Trial.addGeneration, List.length_append, List.length_singleton, List.range_succ,
    List.map_append, List.map_singleton, hvalue]
  rw [← h.shutdowns]

/-- An increment of the generation by the waiter. -/
theorem incrementWaiter (h : Publications t acked) {p : WaiterPc}
    (hpending : p.pending = t.waiter.pending)
    (hincrements : p.increments = t.waiter.increments + 1)
    (hfits : p.Fits t.shared.stop t.locals.recorded.length t.published.length)
    (hrunning : p.running = false → t.waiter.running = false) :
    Publications { t.addGeneration with waiter := p } acked :=
  { h with
    count := by
      show t.locals.recorded.length = acked + p.pending
      rw [h.count, hpending]
    generation := h.addGeneration_generation
    shutdowns := h.addGeneration_shutdowns
    increments := by
      have hlength := h.increments
      simp only [Trial.addGeneration, List.length_append, List.length_singleton, hincrements]
      omega
    waiter := hfits
    waiterIdle := fun hidle => h.waiterIdle (hrunning hidle) }

/-- An increment of the generation by the producer. -/
theorem incrementProducer (h : Publications t acked) {p : ProducerPc}
    (hincrements : p.increments = t.producer.increments + 1)
    (hfits : p.Fits t.shared.stop acked t.published.length t.shared.sentCycles)
    (hidle : p.idle = false) :
    Publications { t.addGeneration with producer := p } acked :=
  { h with
    generation := h.addGeneration_generation
    shutdowns := h.addGeneration_shutdowns
    increments := by
      have hlength := h.increments
      simp only [Trial.addGeneration, List.length_append, List.length_singleton, hincrements]
      omega
    producer := hfits
    producerIdle := by
      rw [hidle]
      exact unset }

theorem incrementVictim (h : Publications t acked) {p : VictimPc}
    (hincrements : p.increments = t.victim.increments + 1) :
    Publications { t.addGeneration with victim := p } acked :=
  { h with
    generation := h.addGeneration_generation
    shutdowns := h.addGeneration_shutdowns
    increments := by
      have hlength := h.increments
      simp only [Trial.addGeneration, List.length_append, List.length_singleton, hincrements]
      omega }

/-- An increment of the generation by the controller. -/
theorem incrementController (h : Publications t acked) {p : ControllerPc}
    (hincrements : p.increments = t.controller.increments + 1)
    (hlaunched : p.launched = t.controller.launched) :
    Publications { t.addGeneration with controller := p } acked :=
  { h with
    generation := h.addGeneration_generation
    shutdowns := h.addGeneration_shutdowns
    increments := by
      have hlength := h.increments
      simp only [Trial.addGeneration, List.length_append, List.length_singleton, hincrements]
      omega
    unlaunched := by
      rw [hlaunched]
      exact h.unlaunched }

/-- A generation other than the one that was recorded last is the next one, or the trial is
stopped. -/
theorem observed (h : Publications t acked) (hs : Startup t) (hpending : t.waiter.pending = 0)
    (hne : t.shared.generation ≠ t.locals.recorded.length % 2 ^ 64) :
    t.shared.stop = true ∨ t.published.length = t.locals.recorded.length + 1 := by
  by_cases hshutdowns : t.shutdowns = []
  · right
    have hrecorded := h.recorded_eq hpending
    have hle := h.recorded_le
    have hpublished := h.published_le
    have hgeneration := h.generation
    rw [hshutdowns, List.length_nil, Nat.add_zero] at hgeneration
    have hlast : t.published.length ≠ t.locals.recorded.length := by
      intro heq
      rw [hgeneration, heq] at hne
      exact hne rfl
    omega
  · exact .inl (hs.shutdowns hshutdowns)

/-- What the waiter reads once the next generation is there. -/
theorem reread (h : Publications t acked) (hs : Startup t)
    (hnext : t.shared.stop = true ∨ t.published.length = t.locals.recorded.length + 1) :
    t.shared.stop = true ∨ t.published.length = t.locals.recorded.length + 1 ∧
      t.shared.generation = (t.locals.recorded.length + 1) % 2 ^ 64 := by
  by_cases hshutdowns : t.shutdowns = []
  · rcases hnext with hstop | hnext
    · exact .inl hstop
    · have hgeneration := h.generation
      rw [hshutdowns, List.length_nil, Nat.add_zero, hnext] at hgeneration
      exact .inr ⟨hnext, hgeneration⟩
  · exact .inl (hs.shutdowns hshutdowns)

theorem moved_running (h : Publications t acked) {p : WaiterPc}
    (hwaiter : t.waiter.pending = 0 ∧ t.waiter.increments = 0)
    (hpc : p.pending = 0 ∧ p.increments = 0 ∧ p.running = true)
    (hfits : p.Fits t.shared.stop t.locals.recorded.length t.published.length) :
    Publications { t with waiter := p } acked := by
  apply h.moveWaiter (hpc.1.trans hwaiter.1.symm) (hpc.2.1.trans hwaiter.2.symm) hfits
  rw [hpc.2.2]
  exact isset

/-- The event that is recorded is the one whose time stamp was stored last. -/
theorem record (h : Publications t acked) {observed unclassified : ℕ} {received : Stamp}
    {p : WaiterPc} (hwaiter : t.waiter = .loadSent observed unclassified received)
    (hpc : p = .storeStop observed ∨ p = .storeAcknowledged observed) :
    Publications { t.record config observed unclassified received with waiter := p } acked := by
  have hpending : t.waiter.pending = 0 := by rw [hwaiter]; rfl
  have hincrements : t.waiter.increments = 0 := by rw [hwaiter]; rfl
  have hcount := h.recorded_eq hpending
  have hfits := h.waiter
  rw [hwaiter] at hfits
  obtain ⟨hpublished, hobserved⟩ := hfits
  have hquiet : p.pending = 1 ∧ p.increments = 0 ∧ p.running = true := by
    rcases hpc with rfl | rfl <;> exact ⟨rfl, rfl, rfl⟩
  let wake : Wake := ⟨unclassified, observed, false, received, t.shared.sentCycles⟩
  have hrecorded : (t.record config observed unclassified received).locals.recorded =
      t.locals.recorded ++ [wake] := rfl
  have hlength : (t.record config observed unclassified received).locals.recorded.length =
      t.locals.recorded.length + 1 := by
    rw [hrecorded, List.length_append, List.length_singleton]
  exact
    { h with
      count := by
        show (t.record config observed unclassified received).locals.recorded.length =
          acked + p.pending
        rw [hlength, hcount, hquiet.1]
      recorded_le := by
        show (t.record config observed unclassified received).locals.recorded.length ≤
          t.published.length
        rw [hlength, hpublished]
      increments := by
        show t.shutdowns.length = p.increments + t.producer.increments + t.victim.increments +
          t.controller.increments
        rw [h.increments, hquiet.2.1, hincrements]
      waiter := by
        show p.Fits t.shared.stop
          (t.record config observed unclassified received).locals.recorded.length
          t.published.length
        rw [hlength]
        rcases hpc with rfl | rfl <;> exact hobserved
      samples := by
        show (t.locals.recorded ++ [wake]).map Wake.publication <+: t.published
        obtain ⟨earlier, hearlier⟩ :=
          List.getLast?_eq_some_iff.mp (h.sent (by rw [hpublished, hcount]))
        have hwake : wake.publication = ⟨t.published.length % 2 ^ 64, t.shared.sentCycles⟩ := by
          rw [hpublished, ← hobserved]
          rfl
        have hall : t.locals.recorded.map Wake.publication = earlier := by
          have hsamples := h.samples
          rw [hearlier] at hsamples
          have hlengths := congrArg List.length hearlier
          rw [List.length_append, List.length_singleton] at hlengths
          rcases List.prefix_concat_iff.mp hsamples with heq | hprefix
          · have hlong := congrArg List.length heq
            rw [List.length_map, List.length_append, List.length_singleton] at hlong
            omega
          · apply hprefix.eq_of_length
            rw [List.length_map]
            omega
        have heq : (t.locals.recorded ++ [wake]).map Wake.publication = t.published := by
          rw [List.map_append, hall, List.map_singleton, hwake, ← hearlier]
        exact ⟨[], by rw [heq, List.append_nil]⟩
      waiterIdle := by
        rw [hquiet.2.2]
        exact isset }

/-- The acknowledged event was the pending one. -/
theorem acknowledge (h : Publications t acked) {observed : ℕ} {p : WaiterPc}
    (hwaiter : t.waiter = .storeAcknowledged observed)
    (hpc : p.pending = 0 ∧ p.increments = 0 ∧ p.running = true)
    (hfits : p.Fits t.shared.stop t.locals.recorded.length t.published.length) :
    Publications { t with shared.acknowledged := observed, waiter := p } (acked + 1) := by
  have hcount := h.count
  have hobserved := h.waiter
  have hincrements := h.increments
  rw [hwaiter] at hcount hobserved hincrements
  have hle := h.recorded_le
  have hpublished := h.published_le
  have hlength : t.locals.recorded.length = acked + 1 := hcount
  exact
    { h with
      count := by
        show t.locals.recorded.length = acked + 1 + p.pending
        rw [hlength, hpc.1]
      acknowledged := by
        show observed = (acked + 1) % 2 ^ 64
        rw [← hlength]
        exact hobserved
      published_le := by
        show t.published.length ≤ acked + 1 + 1
        omega
      increments := by
        show t.shutdowns.length = p.increments + t.producer.increments + t.victim.increments +
          t.controller.increments
        rw [hpc.2.1]
        exact hincrements
      waiter := hfits
      producer := h.producer.acknowledge (by omega)
      sent := by
        show t.published.length = acked + 1 + 1 → _
        omega
      waiterIdle := by
        rw [hpc.2.2]
        exact isset }

theorem loopHead_fits (surface : Surface) {observed recorded published : ℕ} {stop : Bool}
    (hobserved : observed = recorded % 2 ^ 64) :
    (WaiterPc.loopHead surface observed).Fits stop recorded published := by
  cases surface <;> exact hobserved

theorem loopHead_quiet (surface : Surface) (observed : ℕ) :
    (WaiterPc.loopHead surface observed).pending = 0 ∧
      (WaiterPc.loopHead surface observed).increments = 0 ∧
      (WaiterPc.loopHead surface observed).running = true := by
  cases surface <;> exact ⟨rfl, rfl, rfl⟩

theorem parked_fits (surface : Surface) {observed recorded published : ℕ} {stop : Bool}
    (unclassified : ℕ) (notified : Bool) (hobserved : observed = recorded % 2 ^ 64) :
    (WaiterPc.parked surface observed unclassified notified).Fits stop recorded published := by
  cases surface <;> exact hobserved

theorem parked_quiet (surface : Surface) (observed unclassified : ℕ) (notified : Bool) :
    (WaiterPc.parked surface observed unclassified notified).pending = 0 ∧
      (WaiterPc.parked surface observed unclassified notified).increments = 0 ∧
      (WaiterPc.parked surface observed unclassified notified).running = true := by
  cases surface <;> exact ⟨rfl, rfl, rfl⟩

/-- Before the start nothing is published, so that a generation other than 0 is one of the
shutdown. -/
theorem captured (h : Publications t acked) (hs : Startup t)
    (hwaiter : t.waiter.announced = false) :
    t.shared.stop = true ∨ t.shared.generation = 0 := by
  by_cases hshutdowns : t.shutdowns = []
  · right
    have hlaunched : t.controller.launched = false := by
      rw [Bool.eq_false_iff]
      intro hlaunched
      have hannounced := hs.announced_of_counted (ControllerPc.counted_of_launched hlaunched)
      rw [hwaiter] at hannounced
      cases hannounced.1
    rw [h.generation, h.unlaunched hlaunched, hshutdowns]
    rfl
  · exact .inl (hs.shutdowns hshutdowns)

/-- A step of the waiter keeps the publications accounted for. -/
theorem waiterNext (h : Publications t acked) (hs : Startup t)
    (hstep : waiterNext config chance t = some t') : ∃ acked, Publications t' acked := by
  have hfits := h.waiter
  cases hpc : t.waiter with
  | pinCurrent =>
    simp only [WakeLatency.waiterNext, hpc] at hstep
    have hidle : t.waiter.running = false := by rw [hpc]; rfl
    split at hstep
    · cases hstep
      exact ⟨acked, h.moveWaiter (by rw [hpc]; rfl) (by rw [hpc]; rfl) trivial fun _ => hidle⟩
    · cases hstep
      have hpending : 0 = t.waiter.pending := by rw [hpc]; rfl
      have hincrements : 0 = t.waiter.increments := by rw [hpc]; rfl
      have h' := h.reference chance.stamp.auxiliary
      refine ⟨acked, ?_⟩
      split
      · exact h'.moveWaiter hpending hincrements trivial fun _ => hidle
      · exact h'.moveWaiter hpending hincrements trivial fun _ => hidle
  | abortStartup error due =>
    simp only [WakeLatency.waiterNext, hpc] at hstep
    cases hstep
    have hidle : t.waiter.running = false := by rw [hpc]; rfl
    have hpending : 0 = t.waiter.pending := by rw [hpc]; rfl
    have hincrements : 0 = t.waiter.increments := by rw [hpc]; rfl
    cases due with
    | storeStop =>
      exact ⟨acked, h.storeStop.moveWaiter hpending hincrements trivial fun _ => hidle⟩
    | storeGo => exact ⟨acked, h.storeGo.moveWaiter hpending hincrements trivial fun _ => hidle⟩
    | addGeneration =>
      exact ⟨acked, h.incrementWaiter hpending (by rw [← hincrements]; rfl) trivial fun _ => hidle⟩
  | sendHandle =>
    simp only [WakeLatency.waiterNext, hpc] at hstep
    have hidle : t.waiter.running = false := by rw [hpc]; rfl
    split at hstep
    · cases hstep
      exact ⟨acked, h.moveWaiter (by rw [hpc]; rfl) (by rw [hpc]; rfl) trivial fun _ => hidle⟩
    · cases hstep
      exact ⟨acked, h.moveWaiter (by rw [hpc]; rfl) (by rw [hpc]; rfl) trivial fun _ => hidle⟩
  | captureGeneration =>
    simp only [WakeLatency.waiterNext, hpc] at hstep
    cases hstep
    have hidle : t.waiter.running = false := by rw [hpc]; rfl
    have hcaptured := h.captured hs (by rw [hpc]; rfl)
    exact ⟨acked, h.moveWaiter (by rw [hpc]; rfl) (by rw [hpc]; rfl) hcaptured fun _ => hidle⟩
  | announceReady observed =>
    simp only [WakeLatency.waiterNext, hpc] at hstep
    cases hstep
    rw [hpc] at hfits
    have hidle : t.waiter.running = false := by rw [hpc]; rfl
    have hpending : 0 = t.waiter.pending := by rw [hpc]; rfl
    have hincrements : 0 = t.waiter.increments := by rw [hpc]; rfl
    exact ⟨acked, h.addReady.moveWaiter hpending hincrements hfits fun _ => hidle⟩
  | loadGo observed =>
    simp only [WakeLatency.waiterNext, hpc] at hstep
    cases hstep
    rw [hpc] at hfits
    have hidle : t.waiter.running = false := by rw [hpc]; rfl
    refine ⟨acked, ?_⟩
    split
    · exact h.moveWaiter (by rw [hpc]; rfl) (by rw [hpc]; rfl) hfits fun _ => hidle
    · exact h.moveWaiter (by rw [hpc]) (by rw [hpc]) hfits fun _ => hidle
  | loadStopAtStart observed =>
    simp only [WakeLatency.waiterNext, hpc] at hstep
    cases hstep
    rw [hpc] at hfits
    have hidle : t.waiter.running = false := by rw [hpc]; rfl
    refine ⟨acked, ?_⟩
    split
    case isTrue =>
      exact h.moveWaiter (by rw [hpc]; rfl) (by rw [hpc]; rfl) trivial fun _ => hidle
    case isFalse hstop =>
      have hobserved : observed = t.locals.recorded.length % 2 ^ 64 := by
        rw [h.waiterIdle hidle]
        exact hfits.resolve_left hstop
      exact h.moved_running (by rw [hpc]; exact ⟨rfl, rfl⟩) (loopHead_quiet config.surface observed)
        (loopHead_fits config.surface hobserved)
  | waitDirect observed unclassified =>
    rw [hpc] at hfits
    simp only [WakeLatency.waiterNext, hpc] at hstep
    have hquiet : t.waiter.pending = 0 ∧ t.waiter.increments = 0 := by rw [hpc]; exact ⟨rfl, rfl⟩
    split at hstep
    · cases hstep
      exact ⟨acked, h.moved_running hquiet ⟨rfl, rfl, rfl⟩ hfits⟩
    · split at hstep
      case isTrue hne =>
        cases hstep
        rw [show observed = _ from hfits] at hne
        exact ⟨acked, h.moved_running hquiet ⟨rfl, rfl, rfl⟩
          (h.reread hs (h.observed hs hquiet.1 hne))⟩
      case isFalse => cases hstep
  | reloadGeneration observed unclassified =>
    rw [hpc] at hfits
    simp only [WakeLatency.waiterNext, hpc] at hstep
    cases hstep
    have hquiet : t.waiter.pending = 0 ∧ t.waiter.increments = 0 := by rw [hpc]; exact ⟨rfl, rfl⟩
    refine ⟨acked, ?_⟩
    split
    case isTrue hne =>
      rw [show observed = _ from hfits] at hne
      exact h.moved_running hquiet ⟨rfl, rfl, rfl⟩ (h.reread hs (h.observed hs hquiet.1 hne))
    case isFalse => exact h.moved_running hquiet ⟨rfl, rfl, rfl⟩ hfits
  | compareGeneration observed unclassified =>
    rw [hpc] at hfits
    simp only [WakeLatency.waiterNext, hpc] at hstep
    cases hstep
    have hquiet : t.waiter.pending = 0 ∧ t.waiter.increments = 0 := by rw [hpc]; exact ⟨rfl, rfl⟩
    refine ⟨acked, ?_⟩
    split
    case isTrue => exact h.moved_running hquiet ⟨rfl, rfl, rfl⟩ hfits
    case isFalse hne =>
      rw [show observed = _ from hfits] at hne
      exact h.moved_running hquiet ⟨rfl, rfl, rfl⟩ (h.observed hs hquiet.1 hne)
  | park observed unclassified =>
    rw [hpc] at hfits
    simp only [WakeLatency.waiterNext, hpc] at hstep
    have hquiet : t.waiter.pending = 0 ∧ t.waiter.increments = 0 := by rw [hpc]; exact ⟨rfl, rfl⟩
    split at hstep
    · cases hstep
      exact ⟨acked, h.moved_running hquiet (parked_quiet config.surface observed unclassified false)
        (parked_fits config.surface unclassified false hfits)⟩
    · split at hstep
      · cases hstep
        have hmoved := h.moved_running hquiet
          (parked_quiet config.surface observed unclassified true)
          (parked_fits config.surface unclassified true hfits)
        exact ⟨acked, hmoved.tokenChanged emptyToken⟩
      · cases hstep
  | countWake observed unclassified =>
    rw [hpc] at hfits
    simp only [WakeLatency.waiterNext, hpc] at hstep
    cases hstep
    exact ⟨acked, h.moved_running (by rw [hpc]; exact ⟨rfl, rfl⟩) ⟨rfl, rfl, rfl⟩ hfits⟩
  | rereadGeneration observed unclassified =>
    rw [hpc] at hfits
    simp only [WakeLatency.waiterNext, hpc] at hstep
    cases hstep
    exact ⟨acked, h.moved_running (by rw [hpc]; exact ⟨rfl, rfl⟩) ⟨rfl, rfl, rfl⟩
      (h.reread hs hfits)⟩
  | loadStop observed unclassified =>
    rw [hpc] at hfits
    simp only [WakeLatency.waiterNext, hpc] at hstep
    have hquiet : t.waiter.pending = 0 ∧ t.waiter.increments = 0 := by rw [hpc]; exact ⟨rfl, rfl⟩
    split at hstep
    case isTrue =>
      cases hstep
      have hmoved : Publications { t with waiter := .returned (.ok ()) } acked :=
        h.moved_running hquiet ⟨rfl, rfl, rfl⟩ trivial
      exact ⟨acked, { hmoved with }⟩
    case isFalse hstop =>
      cases hstep
      exact ⟨acked, h.moved_running hquiet ⟨rfl, rfl, rfl⟩ (hfits.resolve_left hstop)⟩
  | stamp observed unclassified =>
    rw [hpc] at hfits
    simp only [WakeLatency.waiterNext, hpc] at hstep
    cases hstep
    exact ⟨acked, h.moved_running (by rw [hpc]; exact ⟨rfl, rfl⟩) ⟨rfl, rfl, rfl⟩ hfits⟩
  | loadSent observed unclassified received =>
    simp only [WakeLatency.waiterNext, hpc] at hstep
    cases hstep
    refine ⟨acked, h.record hpc ?_⟩
    split
    · exact .inl rfl
    · exact .inr rfl
  | storeStop observed =>
    rw [hpc] at hfits
    simp only [WakeLatency.waiterNext, hpc] at hstep
    cases hstep
    have hpending : 1 = t.waiter.pending := by rw [hpc]; rfl
    have hincrements : 0 = t.waiter.increments := by rw [hpc]; rfl
    exact ⟨acked, h.storeStop.moveWaiter hpending hincrements hfits isset⟩
  | storeAcknowledged observed =>
    rw [hpc] at hfits
    simp only [WakeLatency.waiterNext, hpc] at hstep
    cases hstep
    exact ⟨acked + 1, h.acknowledge hpc (loopHead_quiet config.surface observed)
      (loopHead_fits config.surface hfits)⟩
  | returned result =>
    simp only [WakeLatency.waiterNext, hpc] at hstep
    cases hstep

theorem move (h : Publications t acked) {p : ProducerPc}
    (hproducer : t.producer.increments = 0) (hpc : p.increments = 0 ∧ p.idle = false)
    (hfits : p.Fits t.shared.stop acked t.published.length t.shared.sentCycles) :
    Publications { t with producer := p } acked := by
  apply h.moveProducer (hpc.1.trans hproducer.symm) hfits
  rw [hpc.2]
  exact unset

/-- Nobody has shut the trial down while the producer is running. -/
theorem shutdowns_of_running (h : Publications t acked) (hs : Startup t)
    (hrunning : t.producer.running = true) (hproducer : t.producer.increments = 0) :
    t.shutdowns = [] := by
  have hlaunched := hs.producerRunning hrunning
  obtain ⟨hwaiter, -, hvictim⟩ :=
    hs.announced_of_counted (ControllerPc.counted_of_launched hlaunched)
  have hlength := h.increments
  rw [hproducer, WaiterPc.increments_of_announced hwaiter, VictimPc.increments_of_announced hvictim,
    ControllerPc.increments_of_launched hlaunched] at hlength
  exact List.length_eq_zero_iff.mp hlength

/-- Storing the time stamp comes before its generation. -/
theorem storeSent (h : Publications t acked) {sequence sent : ℕ}
    (hproducer : t.producer = .storeSent sequence sent) :
    Publications
      { t with shared.sentCycles := sent, producer := .storeGeneration sequence sent } acked := by
  have hfits := h.producer
  have hincrements := h.increments
  rw [hproducer] at hfits hincrements
  exact
    { h with
      increments := hincrements
      producer := ⟨hfits.1, hfits.2, rfl⟩
      sent := by
        intro hunacked
        have hpublished : t.published.length = acked + 1 := hunacked
        have hall : acked = t.published.length := hfits.2
        omega
      producerIdle := unset }

/-- All that was published is recorded, so the next generation is due. -/
theorem publish (h : Publications t acked) (hs : Startup t) {sequence sent : ℕ}
    (hproducer : t.producer = .storeGeneration sequence sent) :
    Publications { t.publish sequence sent with producer := .wake sequence } acked := by
  have hfits := h.producer
  have hincrements := h.increments
  have hshutdowns : t.shutdowns = [] :=
    h.shutdowns_of_running hs (by rw [hproducer]; rfl) (by rw [hproducer]; rfl)
  have hlaunched := hs.producerRunning (by rw [hproducer]; rfl)
  rw [hproducer] at hfits hincrements
  obtain ⟨hsequence, hall, hsent⟩ := hfits
  have hrecorded := h.recorded_le
  have hcount := h.count
  have hlength : (t.publish sequence sent).published.length =
      t.published.length + 1 := by
    exact List.length_append
  exact
    { h with
      recorded_le := by
        show t.locals.recorded.length ≤ (t.publish sequence sent).published.length
        omega
      published_le := by
        show (t.publish sequence sent).published.length ≤ acked + 1
        omega
      generation := by
        show sequence = ((t.publish sequence sent).published.length + t.shutdowns.length) % 2 ^ 64
        rw [hlength, hshutdowns, List.length_nil, Nat.add_zero]
        exact hsequence
      shutdowns := by
        show t.shutdowns = (List.range t.shutdowns.length).map _
        rw [hshutdowns]
        rfl
      increments := hincrements
      waiter := by
        show t.waiter.Fits t.shared.stop t.locals.recorded.length
          (t.publish sequence sent).published.length
        rw [hlength]
        exact h.waiter.publish (by omega)
      producer := by
        show sequence = (t.publish sequence sent).published.length % 2 ^ 64
        rw [hlength]
        exact hsequence
      published := by
        show (t.published ++ [_]).map Publication.generation =
          (List.range (t.publish sequence sent).published.length).map _
        rw [List.map_append, h.published, hlength, List.range_succ, List.map_append,
          List.map_singleton, List.map_singleton, ← hsequence]
      sent := by
        intro _
        show (t.published ++ [_]).getLast? =
          some ⟨(t.publish sequence sent).published.length % 2 ^ 64, t.shared.sentCycles⟩
        rw [List.getLast?_concat, hlength, hsent, ← hsequence]
      samples := List.prefix_append_of_prefix h.samples
      producerIdle := unset
      unlaunched := by
        show t.controller.launched = false → _
        rw [hlaunched]
        exact isset }

/-- A step of the producer keeps the publications accounted for. -/
theorem producerNext (h : Publications t acked) (hs : Startup t)
    (hstep : producerNext config chance t = some t') : Publications t' acked := by
  have hfits := h.producer
  cases hpc : t.producer with
  | unspawned =>
    simp only [WakeLatency.producerNext, hpc] at hstep
    cases hstep
  | pinCurrent =>
    simp only [WakeLatency.producerNext, hpc] at hstep
    split at hstep
    · cases hstep
      exact h.move (by rw [hpc]; rfl) ⟨rfl, rfl⟩ trivial
    · cases hstep
      have hidle : t.producer.idle = true := by rw [hpc]; rfl
      have hmoved : Publications { t with producer := .announceReady } acked :=
        h.moveProducer (by rw [hpc]; rfl) trivial fun _ => hidle
      exact { hmoved with }
  | abortStartup error due =>
    simp only [WakeLatency.producerNext, hpc] at hstep
    cases hstep
    have hincrements : t.producer.increments = 0 := by rw [hpc]; rfl
    cases due with
    | storeStop => exact h.storeStop.move hincrements ⟨rfl, rfl⟩ trivial
    | storeGo => exact h.storeGo.move hincrements ⟨rfl, rfl⟩ trivial
    | addGeneration => exact h.incrementProducer (by rw [hincrements]; rfl) trivial rfl
  | wakeAborted error =>
    simp only [WakeLatency.producerNext, hpc] at hstep
    cases hstep
    have hincrements : 1 = t.producer.increments := by rw [hpc]; rfl
    exact (h.wake config.surface).moveProducer hincrements trivial unset
  | announceReady =>
    simp only [WakeLatency.producerNext, hpc] at hstep
    cases hstep
    have hincrements : 0 = t.producer.increments := by rw [hpc]; rfl
    have hidle : t.producer.idle = true := by rw [hpc]; rfl
    exact h.addReady.moveProducer hincrements trivial fun _ => hidle
  | loadGo =>
    simp only [WakeLatency.producerNext, hpc] at hstep
    cases hstep
    have hidle : t.producer.idle = true := by rw [hpc]; rfl
    split
    · apply h.move (by rw [hpc]; rfl) ⟨rfl, rfl⟩
      show 0 = t.published.length % 2 ^ 64
      rw [h.producerIdle hidle]
      rfl
    · exact h.moveProducer (by rw [hpc]) trivial fun _ => hidle
  | loadStop sequence =>
    rw [hpc] at hfits
    simp only [WakeLatency.producerNext, hpc] at hstep
    cases hstep
    split
    · exact h.move (by rw [hpc]; rfl) ⟨rfl, rfl⟩ trivial
    · exact h.move (by rw [hpc]; rfl) ⟨rfl, rfl⟩ hfits
  | loadAcknowledged sequence =>
    rw [hpc] at hfits
    simp only [WakeLatency.producerNext, hpc] at hstep
    cases hstep
    split
    case isTrue => exact h.move (by rw [hpc]; rfl) ⟨rfl, rfl⟩ hfits
    case isFalse heq =>
      refine h.move (by rw [hpc]; rfl) ⟨rfl, rfl⟩ ⟨hfits, .inr ?_⟩
      -- of the two numbers that differ by one at most, the remainders agree
      have hsequence : sequence = t.published.length % 2 ^ 64 := hfits
      have hremainders := h.acknowledged
      have hrecorded := h.recorded_le
      have hpublished := h.published_le
      have hcount := h.count
      rw [not_not.mp heq] at hremainders
      omega
  | loadStopUnacknowledged sequence =>
    rw [hpc] at hfits
    simp only [WakeLatency.producerNext, hpc] at hstep
    cases hstep
    split
    case isTrue hstop => exact h.move (by rw [hpc]; rfl) ⟨rfl, rfl⟩ ⟨hfits, .inl hstop⟩
    case isFalse => exact h.move (by rw [hpc]; rfl) ⟨rfl, rfl⟩ hfits
  | loadStopAfterWait sequence =>
    rw [hpc] at hfits
    simp only [WakeLatency.producerNext, hpc] at hstep
    cases hstep
    split
    case isTrue => exact h.move (by rw [hpc]; rfl) ⟨rfl, rfl⟩ trivial
    case isFalse hstop =>
      have hall := hfits.2.resolve_left hstop
      split
      · exact h.move (by rw [hpc]; rfl) ⟨rfl, rfl⟩ ⟨hfits.1, hall⟩
      · exact h.move (by rw [hpc]; rfl) ⟨rfl, rfl⟩ ⟨next_sequence hfits.1, hall⟩
  | cancellableGap sequence =>
    rw [hpc] at hfits
    simp only [WakeLatency.producerNext, hpc] at hstep
    cases hstep
    split
    · exact h.move (by rw [hpc]; rfl) ⟨rfl, rfl⟩ hfits
    · exact h.move (by rw [hpc]; rfl) ⟨rfl, rfl⟩ hfits
  | loadStopAfterGap sequence =>
    rw [hpc] at hfits
    simp only [WakeLatency.producerNext, hpc] at hstep
    cases hstep
    split
    · exact h.move (by rw [hpc]; rfl) ⟨rfl, rfl⟩ trivial
    · exact h.move (by rw [hpc]; rfl) ⟨rfl, rfl⟩ ⟨next_sequence hfits.1, hfits.2⟩
  | stamp sequence =>
    rw [hpc] at hfits
    simp only [WakeLatency.producerNext, hpc] at hstep
    cases hstep
    split
    · exact h.move (by rw [hpc]; rfl) ⟨rfl, rfl⟩ trivial
    · exact h.move (by rw [hpc]; rfl) ⟨rfl, rfl⟩ hfits
  | storeSent sequence sent =>
    simp only [WakeLatency.producerNext, hpc] at hstep
    cases hstep
    exact h.storeSent hpc
  | storeGeneration sequence sent =>
    simp only [WakeLatency.producerNext, hpc] at hstep
    cases hstep
    exact h.publish hs hpc
  | wake sequence =>
    rw [hpc] at hfits
    simp only [WakeLatency.producerNext, hpc] at hstep
    cases hstep
    have hincrements : t.producer.increments = 0 := by rw [hpc]; rfl
    exact (h.wake config.surface).move hincrements ⟨rfl, rfl⟩ hfits
  | exitStop =>
    simp only [WakeLatency.producerNext, hpc] at hstep
    cases hstep
    have hincrements : t.producer.increments = 0 := by rw [hpc]; rfl
    exact h.storeStop.move hincrements ⟨rfl, rfl⟩ trivial
  | exitGeneration =>
    simp only [WakeLatency.producerNext, hpc] at hstep
    cases hstep
    exact h.incrementProducer (by rw [hpc]; rfl) trivial rfl
  | exitWake =>
    simp only [WakeLatency.producerNext, hpc] at hstep
    cases hstep
    have hincrements : 1 = t.producer.increments := by rw [hpc]; rfl
    exact (h.wake config.surface).moveProducer hincrements trivial unset
  | returned result =>
    simp only [WakeLatency.producerNext, hpc] at hstep
    cases hstep

/-- A step of the victim keeps the publications accounted for. -/
theorem victimNext (h : Publications t acked) (hstep : victimNext chance t = some t') :
    Publications t' acked := by
  cases hpc : t.victim with
  | unspawned =>
    simp only [WakeLatency.victimNext, hpc] at hstep
    cases hstep
  | pinCurrent =>
    simp only [WakeLatency.victimNext, hpc] at hstep
    split at hstep
    · cases hstep
      exact h.moveVictim (by rw [hpc]; rfl)
    · cases hstep
      exact h.moveVictim (by rw [hpc]; rfl)
  | abortStartup error due =>
    simp only [WakeLatency.victimNext, hpc] at hstep
    cases hstep
    have hincrements : 0 = t.victim.increments := by rw [hpc]; rfl
    cases due with
    | storeStop => exact h.storeStop.moveVictim hincrements
    | storeGo => exact h.storeGo.moveVictim hincrements
    | addGeneration => exact h.incrementVictim (by rw [← hincrements]; rfl)
  | announceReady =>
    simp only [WakeLatency.victimNext, hpc] at hstep
    cases hstep
    have hincrements : 0 = t.victim.increments := by rw [hpc]; rfl
    exact h.addReady.moveVictim hincrements
  | loadGo =>
    simp only [WakeLatency.victimNext, hpc] at hstep
    cases hstep
    split
    · exact h.moveVictim (by rw [hpc]; rfl)
    · exact h.moveVictim (by rw [hpc])
  | loadStop chunks =>
    simp only [WakeLatency.victimNext, hpc] at hstep
    cases hstep
    split
    · apply h.moveVictim
      rw [hpc]
      split <;> rfl
    · split
      · exact h.moveVictim (by rw [hpc]; rfl)
      · exact h.moveVictim (by rw [hpc]; rfl)
  | returned result =>
    simp only [WakeLatency.victimNext, hpc] at hstep
    cases hstep

/-- A step of the controller keeps the publications accounted for. -/
theorem driveTrialNext (h : Publications t acked) (hs : Startup t)
    (hstep : driveTrialNext chance t = some t') : Publications t' acked := by
  have hunlaunched := h.unlaunched
  have hincrements := h.increments
  cases hpc : t.controller with
  | receiveHandle =>
    simp only [WakeLatency.driveTrialNext, hpc] at hstep
    rw [hpc] at hunlaunched
    split at hstep
    · cases hstep
      exact h.moveController (by rw [hpc]; rfl) hunlaunched
    · split at hstep
      · cases hstep
        exact h.moveController (by rw [hpc]; rfl) hunlaunched
      · cases hstep
  | spawnProducer =>
    simp only [WakeLatency.driveTrialNext, hpc] at hstep
    cases hstep
    have hproducer := hs.noProducer (by rw [hpc]; rfl)
    have hmoved : Publications { t with controller := .spawnVictim } acked :=
      h.moveController (by rw [hpc]; rfl) fun _ => hunlaunched (by rw [hpc]; rfl)
    exact hmoved.moveProducer (by show _ = t.producer.increments; rw [hproducer]; rfl) trivial
      (by show _ → t.producer.idle = true; rw [hproducer]; exact fun _ => rfl)
  | spawnVictim =>
    simp only [WakeLatency.driveTrialNext, hpc] at hstep
    cases hstep
    have hvictim := hs.noVictim (by rw [hpc]; rfl)
    have hmoved : Publications { t with controller := .loadReady } acked :=
      h.moveController (by rw [hpc]; rfl) fun _ => hunlaunched (by rw [hpc]; rfl)
    exact hmoved.moveVictim (by show _ = t.victim.increments; rw [hvictim]; rfl)
  | loadReady =>
    simp only [WakeLatency.driveTrialNext, hpc] at hstep
    cases hstep
    rw [hpc] at hunlaunched
    split
    · exact h.moveController (by rw [hpc]; rfl) hunlaunched
    · exact h.moveController (by rw [hpc]; rfl) hunlaunched
  | loadStop =>
    simp only [WakeLatency.driveTrialNext, hpc] at hstep
    cases hstep
    rw [hpc] at hunlaunched
    split
    · exact h.moveController (by rw [hpc]; rfl) hunlaunched
    · exact h.moveController (by rw [hpc]; rfl) hunlaunched
  | checkTimeout =>
    simp only [WakeLatency.driveTrialNext, hpc] at hstep
    cases hstep
    rw [hpc] at hunlaunched
    split
    · exact h.moveController (by rw [hpc]; rfl) hunlaunched
    · exact h.moveController (by rw [hpc]; rfl) hunlaunched
  | storeGoFailed =>
    simp only [WakeLatency.driveTrialNext, hpc] at hstep
    cases hstep
    have hzero : 0 = t.controller.increments := by rw [hpc]; rfl
    exact h.storeGo.moveController hzero fun _ => hunlaunched (by rw [hpc]; rfl)
  | abortStartup due =>
    simp only [WakeLatency.driveTrialNext, hpc] at hstep
    cases hstep
    have hzero : 0 = t.controller.increments := by rw [hpc]; rfl
    have hlaunched : t.controller.launched = false := by rw [hpc]; rfl
    cases due with
    | storeStop => exact h.storeStop.moveController hzero fun _ => hunlaunched hlaunched
    | storeGo => exact h.storeGo.moveController hzero fun _ => hunlaunched hlaunched
    | addGeneration => exact h.incrementController (by rw [← hzero]; rfl) hlaunched.symm
  | storeGo =>
    simp only [WakeLatency.driveTrialNext, hpc] at hstep
    cases hstep
    have hzero : 0 = t.controller.increments := by rw [hpc]; rfl
    exact h.storeGo.moveController hzero isset
  | preciseDelay =>
    simp only [WakeLatency.driveTrialNext, hpc] at hstep
    cases hstep
    split
    · exact h.moveController (by rw [hpc]; rfl) isset
    · exact h.moveController (by rw [hpc]) isset
  | storeStop =>
    simp only [WakeLatency.driveTrialNext, hpc] at hstep
    cases hstep
    have hzero : 0 = t.controller.increments := by rw [hpc]; rfl
    exact h.storeStop.moveController hzero isset
  | returned result =>
    simp only [WakeLatency.driveTrialNext, hpc] at hstep
    cases hstep

end Publications

/-- The publications are accounted for at every point of every trial. -/
theorem publications_reach (h : TrialReach config (.new config) t) :
    ∃ acked, Publications t acked := by
  induction h with
  | refl => exact ⟨0, publications_new config⟩
  | tail hreach hstep ih =>
    obtain ⟨acked, ih⟩ := ih
    have hs := startup_reach hreach
    obtain ⟨chance, thread, hstep⟩ := hstep
    cases thread with
    | waiter => exact ih.waiterNext hs hstep
    | producer => exact ⟨acked, ih.producerNext hs hstep⟩
    | victim => exact ⟨acked, ih.victimNext hstep⟩
    | controller => exact ⟨acked, ih.driveTrialNext hs hstep⟩

/-- What holds of the samples in every state of a trial. -/
structure SamplesPaired (t : Trial) : Prop where
  /-- each event was recorded for the publication of its generation, with its time stamp -/
  samples : t.locals.recorded.map Wake.publication <+: t.published
  numbered : t.published.map Publication.generation = List.range' 1 t.published.length
  consecutive : t.locals.recorded.map Wake.generation = List.range' 1 t.locals.recorded.length
  /-- at most one publication is not yet recorded -/
  noneMissed : t.published.length ≤ t.locals.recorded.length + 1
  /-- the time stamp is overwritten only when everything is recorded and acknowledged -/
  notOverwritten : ∀ sequence sent, t.producer = .storeSent sequence sent →
    t.locals.recorded.length = t.published.length ∧
      t.shared.acknowledged = t.locals.recorded.length
  shutdowns : ∀ wake ∈ t.locals.recorded, wake.generation ∉ t.shutdowns

theorem map_mod_of_lt {n bound : ℕ} (h : n < bound) :
    ((List.range n).map fun i => (i + 1) % bound) = List.range' 1 n := by
  rw [List.range'_eq_map_range]
  apply List.map_congr_left
  intro i hi
  have hlt := List.mem_range.mp hi
  rw [Nat.mod_eq_of_lt (by omega), Nat.add_comm]

/-- In every order of the steps, as long as the generation does not wrap around. -/
theorem samples_paired (config : TrialConfig) {t : Trial} (h : TrialReach config (.new config) t)
    (hbound : t.published.length + t.shutdowns.length < 2 ^ 64) : SamplesPaired t := by
  obtain ⟨acked, hp⟩ := publications_reach h
  have hrecorded := hp.recorded_le
  have hpublished := hp.published_le
  have hcount := hp.count
  have hnumbered : t.published.map Publication.generation = List.range' 1 t.published.length := by
    rw [hp.published, map_mod_of_lt (by omega)]
  have hconsecutive : t.locals.recorded.map Wake.generation =
      List.range' 1 t.locals.recorded.length := by
    have hprefix : t.locals.recorded.map Wake.generation <+: List.range' 1 t.published.length := by
      have hsamples := hp.samples.map Publication.generation
      rw [hnumbered, List.map_map] at hsamples
      exact hsamples
    rw [List.prefix_iff_eq_take.mp hprefix, List.length_map,
      List.take_range'_of_length_ge hrecorded]
  exact
    { samples := hp.samples
      numbered := hnumbered
      consecutive := hconsecutive
      noneMissed := by omega
      notOverwritten := by
        intro sequence sent hproducer
        have hfits := hp.producer
        rw [hproducer] at hfits
        have hall : acked = t.published.length := hfits.2
        have hacknowledged := hp.acknowledged
        rw [Nat.mod_eq_of_lt (by omega)] at hacknowledged
        omega
      shutdowns := by
        intro wake hwake hmem
        have hle : wake.generation ≤ t.locals.recorded.length := by
          have hgeneration := List.mem_map_of_mem (f := Wake.generation) hwake
          rw [hconsecutive, List.mem_range'_1] at hgeneration
          omega
        rw [hp.shutdowns] at hmem
        obtain ⟨i, hi, heq⟩ := List.mem_map.mp hmem
        have hlt := List.mem_range.mp hi
        rw [Nat.mod_eq_of_lt (by omega)] at heq
        omega }

/-- A parker that waits for one publication before the driver ends the trial. -/
def sampleConfig : TrialConfig := ⟨.singleParker, .filtered, .saturated, 0, 5, by decide⟩

def steps (n : ℕ) (thread : TrialThread) (cycles : ℕ) (expired : Bool) :
    List (TrialThread × Chance) :=
  List.replicate n (thread, ⟨none, ⟨cycles, 0⟩, expired⟩)

def sampleSchedule : List (TrialThread × Chance) :=
  steps 2 .controller 0 false ++ steps 3 .waiter 0 false ++ steps 2 .producer 0 false ++
  steps 2 .victim 0 false ++ steps 2 .controller 0 false ++ steps 3 .waiter 0 false ++
  steps 8 .producer 5 false ++ steps 7 .waiter 9 false ++ steps 2 .controller 0 true ++
  steps 4 .producer 0 false

def sampleTrial : Trial :=
  ((Trial.new sampleConfig).run sampleConfig sampleSchedule).getD (.new sampleConfig)

theorem sampleTrial_reach : TrialReach sampleConfig (.new sampleConfig) sampleTrial :=
  trialReach_of_run sampleSchedule (by decide +kernel)

theorem samples_paired_sample : sampleTrial.locals.recorded.map Wake.publication = [⟨1, 5⟩] ∧
    SamplesPaired sampleTrial :=
  ⟨by decide +kernel, samples_paired sampleConfig sampleTrial_reach (by decide +kernel)⟩

end Snoozer.WakeLatency
