import Snoozer.TrialThreads

/-! The start of a trial: nobody passes the barrier before all three threads have announced
themselves, unless the trial is already stopped. -/
namespace Snoozer.WakeLatency

theorem unset {p : Prop} (h : false = true) : p := Bool.noConfusion h

theorem isset {p : Prop} (h : true = false) : p := Bool.noConfusion h

/-- `stop` has been stored. -/
def AbortPc.stopped : AbortPc → Bool
  | storeStop => false
  | storeGo | addGeneration => true

/-- `go` has been stored. -/
def AbortPc.released : AbortPc → Bool
  | storeStop | storeGo => false
  | addGeneration => true

namespace WaiterPc

/-- The waiter is counted in `ready`. -/
def announced : WaiterPc → Bool
  | pinCurrent | abortStartup _ _ | sendHandle | captureGeneration | announceReady _ => false
  | returned (.error (.pin _)) | returned (.error (.sendHandle _)) => false
  | _ => true

/-- The waiter has stored `stop` or has seen it. -/
def stopped : WaiterPc → Bool
  | abortStartup _ due => due.stopped
  | returned (.error (.sendHandle _)) => false
  | returned _ => true
  | _ => false

/-- The waiter has found the trial running. -/
def running : WaiterPc → Bool
  | pinCurrent | abortStartup _ _ | sendHandle | captureGeneration | announceReady _ | loadGo _
  | loadStopAtStart _ | returned (.error _) => false
  | _ => true

/-- The waiter has passed the barrier. -/
def released : WaiterPc → Bool
  | loadStopAtStart _ => true
  | p => p.running

end WaiterPc

namespace ProducerPc

def announced : ProducerPc → Bool
  | unspawned | pinCurrent | abortStartup (.pin _) _ | wakeAborted (.pin _) | announceReady
  | returned (.error (.pin _)) => false
  | _ => true

def stopped : ProducerPc → Bool
  | abortStartup _ due => due.stopped
  | wakeAborted _ | exitStop | exitGeneration | exitWake | returned _ => true
  | _ => false

/-- The producer has found the trial running. -/
def running : ProducerPc → Bool
  | unspawned | pinCurrent | abortStartup (.pin _) _ | wakeAborted (.pin _) | announceReady
  | loadGo | loadStop _ | exitStop | exitGeneration | exitWake | returned (.ok ())
  | returned (.error (.pin _)) => false
  | _ => true

def released : ProducerPc → Bool
  | unspawned | pinCurrent | announceReady | loadGo => false
  | abortStartup (.pin _) due => due.released
  | _ => true

end ProducerPc

namespace VictimPc

def announced : VictimPc → Bool
  | unspawned | pinCurrent | abortStartup _ _ | announceReady | returned (.error (.pin _)) => false
  | _ => true

def stopped : VictimPc → Bool
  | abortStartup _ due => due.stopped
  | _ => false

end VictimPc

namespace ControllerPc

/-- The driver has counted the three threads. -/
def counted : ControllerPc → Bool
  | storeGo | preciseDelay | storeStop | returned (.ok ()) => true
  | _ => false

/-- The driver has started the trial. -/
def launched : ControllerPc → Bool
  | preciseDelay | storeStop | returned (.ok ()) => true
  | _ => false

def stopped : ControllerPc → Bool
  | storeGoFailed => true
  | abortStartup due => due.stopped
  | _ => false

def beforeProducer : ControllerPc → Bool
  | receiveHandle | spawnProducer => true
  | _ => false

def beforeVictim : ControllerPc → Bool
  | receiveHandle | spawnProducer | spawnVictim => true
  | _ => false

end ControllerPc

theorem ControllerPc.counted_of_launched {p : ControllerPc} (h : p.launched = true) :
    p.counted = true := by
  unfold ControllerPc.launched at h
  unfold ControllerPc.counted
  split at h <;> grind

/-- `go` is stored by a thread that has stored `stop` before or by the driver that has counted all
the threads, so that whoever passes the barrier and sees no `stop` knows that all of them are
there. -/
structure Startup (t : Trial) : Prop where
  ready : t.shared.ready =
    t.waiter.announced.toNat + t.producer.announced.toNat + t.victim.announced.toNat
  waiterStopped : t.waiter.stopped = true → t.shared.stop = true
  producerStopped : t.producer.stopped = true → t.shared.stop = true
  victimStopped : t.victim.stopped = true → t.shared.stop = true
  controllerStopped : t.controller.stopped = true → t.shared.stop = true
  shutdowns : t.shutdowns ≠ [] → t.shared.stop = true
  go : t.shared.go = true → t.shared.stop = true ∨ t.controller.launched = true
  counted : t.controller.counted = true → t.shared.ready = 3
  waiterReleased : t.waiter.released = true → t.shared.go = true
  producerReleased : t.producer.released = true → t.shared.go = true
  waiterRunning : t.waiter.running = true → t.controller.launched = true
  producerRunning : t.producer.running = true → t.controller.launched = true
  noProducer : t.controller.beforeProducer = true → t.producer = .unspawned
  noVictim : t.controller.beforeVictim = true → t.victim = .unspawned

variable {config : TrialConfig} {chance : Chance} {t t' : Trial}

/-- The invariant of the start holds of a new trial. -/
theorem startup_new (config : TrialConfig) : Startup (.new config) where
  ready := rfl
  waiterStopped := unset
  producerStopped := unset
  victimStopped := unset
  controllerStopped := by
    unfold Trial.new
    split <;> exact unset
  shutdowns := fun h => absurd rfl h
  go := unset
  counted := by
    unfold Trial.new
    split <;> exact unset
  waiterReleased := unset
  producerReleased := unset
  waiterRunning := unset
  producerRunning := unset
  noProducer := fun _ => rfl
  noVictim := fun _ => rfl

namespace Startup

/-- The rest of the state does not matter. -/
theorem frame (h : Startup t) (hready : t'.shared.ready = t.shared.ready)
    (hgo : t'.shared.go = t.shared.go) (hstop : t'.shared.stop = t.shared.stop)
    (hshutdowns : t'.shutdowns = t.shutdowns) (hwaiter : t'.waiter = t.waiter)
    (hproducer : t'.producer = t.producer) (hvictim : t'.victim = t.victim)
    (hcontroller : t'.controller = t.controller) : Startup t' := by
  obtain ⟨h1, h2, h3, h4, h5, h6, h7, h8, h9, h10, h11, h12, h13, h14⟩ := h
  constructor <;>
    simpa only [hready, hgo, hstop, hshutdowns, hwaiter, hproducer, hvictim, hcontroller]

theorem announced_of_counted (h : Startup t) (hcounted : t.controller.counted = true) :
    t.waiter.announced = true ∧ t.producer.announced = true ∧ t.victim.announced = true := by
  have hready := h.ready
  rw [h.counted hcounted] at hready
  have hwaiter := Bool.toNat_le t.waiter.announced
  have hproducer := Bool.toNat_le t.producer.announced
  have hvictim := Bool.toNat_le t.victim.announced
  refine ⟨Bool.toNat_eq_one.mp ?_, Bool.toNat_eq_one.mp ?_, Bool.toNat_eq_one.mp ?_⟩ <;> omega

/-- Storing `stop` keeps the invariant of the start. -/
theorem storeStop (h : Startup t) : Startup t.storeStop where
  ready := h.ready
  waiterStopped := fun _ => rfl
  producerStopped := fun _ => rfl
  victimStopped := fun _ => rfl
  controllerStopped := fun _ => rfl
  shutdowns := fun _ => rfl
  go := fun _ => .inl rfl
  counted := h.counted
  waiterReleased := h.waiterReleased
  producerReleased := h.producerReleased
  waiterRunning := h.waiterRunning
  producerRunning := h.producerRunning
  noProducer := h.noProducer
  noVictim := h.noVictim

theorem storeGo (h : Startup t) (hstop : t.shared.stop = true) : Startup t.storeGo :=
  { h with
    go := fun _ => .inl hstop
    waiterReleased := fun _ => rfl
    producerReleased := fun _ => rfl }

theorem addGeneration (h : Startup t) (hstop : t.shared.stop = true) : Startup t.addGeneration :=
  { h with shutdowns := fun _ => hstop }

theorem moveWaiter (h : Startup t) {p : WaiterPc} (hannounced : p.announced = t.waiter.announced)
    (hstop : p.stopped = true → t.shared.stop = true)
    (hgo : p.released = true → t.shared.go = true)
    (hlaunched : p.running = true → t.controller.launched = true) :
    Startup { t with waiter := p } :=
  { h with
    ready := by
      rw [h.ready, ← hannounced]
    waiterStopped := hstop
    waiterReleased := hgo
    waiterRunning := hlaunched }

/-- The waiter announces itself once. -/
theorem announceWaiter (h : Startup t) (observed : ℕ) (hwaiter : t.waiter.announced = false) :
    Startup { t.addReady with waiter := .loadGo observed } :=
  { h with
    ready := by
      have hready := h.ready
      rw [hwaiter, Bool.toNat_false] at hready
      show t.shared.ready + 1 = 1 + t.producer.announced.toNat + t.victim.announced.toNat
      omega
    waiterStopped := unset
    counted := fun hcounted =>
      absurd (h.announced_of_counted hcounted).1 (by rw [hwaiter]; exact unset)
    waiterReleased := unset
    waiterRunning := unset }

theorem announced_of_running {p : WaiterPc} (h : p.running = true) : p.announced = true := by
  unfold WaiterPc.running at h
  unfold WaiterPc.announced
  split at h <;> grind

/-- A waiter that runs and goes on running changes nothing here. -/
theorem keepWaiter (h : Startup t) {p : WaiterPc} (hwaiter : t.waiter.running = true)
    (hpc : p.running = true) (hstop : p.stopped = true → t.shared.stop = true) :
    Startup { t with waiter := p } := by
  apply h.moveWaiter
  · rw [announced_of_running hpc, announced_of_running hwaiter]
  · exact hstop
  · intro _
    apply h.waiterReleased
    unfold WaiterPc.released
    split
    · rfl
    · exact hwaiter
  · exact fun _ => h.waiterRunning hwaiter

theorem loopHead_running (surface : Surface) (observed : ℕ) :
    (WaiterPc.loopHead surface observed).running = true ∧
      (WaiterPc.loopHead surface observed).stopped = false := by
  cases surface <;> exact ⟨rfl, rfl⟩

theorem parked_running (surface : Surface) (observed unclassified : ℕ) (notified : Bool) :
    (WaiterPc.parked surface observed unclassified notified).running = true ∧
      (WaiterPc.parked surface observed unclassified notified).stopped = false := by
  cases surface <;> exact ⟨rfl, rfl⟩

/-- A step of the waiter keeps the invariant of the start. -/
theorem waiterNext (h : Startup t) (hstep : waiterNext config chance t = some t') :
    Startup t' := by
  cases hpc : t.waiter with
  | pinCurrent =>
    simp only [WakeLatency.waiterNext, hpc] at hstep
    split at hstep
    · cases hstep
      exact h.moveWaiter (by rw [hpc]; rfl) unset unset unset
    · cases hstep
      refine Startup.frame (t := { t with waiter := _ }) ?_ rfl rfl rfl rfl rfl rfl rfl rfl
      split
      · exact h.moveWaiter (by rw [hpc]; rfl) unset unset unset
      · exact h.moveWaiter (by rw [hpc]; rfl) unset unset unset
  | abortStartup error due =>
    simp only [WakeLatency.waiterNext, hpc] at hstep
    cases hstep
    have hstop := h.waiterStopped
    rw [hpc] at hstop
    have hannounced : t.waiter.announced = false := by rw [hpc]; rfl
    cases due with
    | storeStop => exact h.storeStop.moveWaiter hannounced.symm (fun _ => rfl) unset unset
    | storeGo =>
      exact (h.storeGo (hstop rfl)).moveWaiter hannounced.symm (fun _ => hstop rfl) unset unset
    | addGeneration =>
      exact (h.addGeneration (hstop rfl)).moveWaiter hannounced.symm (fun _ => hstop rfl) unset
        unset
  | sendHandle =>
    simp only [WakeLatency.waiterNext, hpc] at hstep
    split at hstep
    · cases hstep
      exact h.moveWaiter (by rw [hpc]; rfl) unset unset unset
    · cases hstep
      exact h.moveWaiter (by rw [hpc]; rfl) unset unset unset
  | captureGeneration =>
    simp only [WakeLatency.waiterNext, hpc] at hstep
    cases hstep
    exact h.moveWaiter (by rw [hpc]; rfl) unset unset unset
  | announceReady observed =>
    simp only [WakeLatency.waiterNext, hpc] at hstep
    cases hstep
    exact h.announceWaiter observed (by rw [hpc]; rfl)
  | loadGo observed =>
    simp only [WakeLatency.waiterNext, hpc] at hstep
    cases hstep
    split
    case isTrue hgo => exact h.moveWaiter (by rw [hpc]; rfl) unset (fun _ => hgo) unset
    case isFalse => exact h.moveWaiter (by rw [hpc]) unset unset unset
  | loadStopAtStart observed =>
    simp only [WakeLatency.waiterNext, hpc] at hstep
    cases hstep
    have hgo : t.shared.go = true := h.waiterReleased (by rw [hpc]; rfl)
    split
    case isTrue hstop => exact h.moveWaiter (by rw [hpc]; rfl) (fun _ => hstop) unset unset
    case isFalse hstop =>
      -- `go` without `stop` is the driver's
      have hlaunched := (h.go hgo).resolve_left hstop
      obtain ⟨hrunning, hstopped⟩ := loopHead_running config.surface observed
      refine h.moveWaiter ?_ ?_ (fun _ => hgo) (fun _ => hlaunched)
      · rw [hpc, announced_of_running hrunning]
        rfl
      · rw [hstopped]
        exact unset
  | waitDirect observed unclassified =>
    simp only [WakeLatency.waiterNext, hpc] at hstep
    have hrunning : t.waiter.running = true := by rw [hpc]; rfl
    split at hstep
    · cases hstep
      exact h.keepWaiter hrunning rfl unset
    · split at hstep
      · cases hstep
        exact h.keepWaiter hrunning rfl unset
      · cases hstep
  | reloadGeneration observed unclassified =>
    simp only [WakeLatency.waiterNext, hpc] at hstep
    cases hstep
    have hrunning : t.waiter.running = true := by rw [hpc]; rfl
    split
    · exact h.keepWaiter hrunning rfl unset
    · exact h.keepWaiter hrunning rfl unset
  | compareGeneration observed unclassified =>
    simp only [WakeLatency.waiterNext, hpc] at hstep
    cases hstep
    have hrunning : t.waiter.running = true := by rw [hpc]; rfl
    split
    · exact h.keepWaiter hrunning rfl unset
    · exact h.keepWaiter hrunning rfl unset
  | park observed unclassified =>
    simp only [WakeLatency.waiterNext, hpc] at hstep
    have hrunning : t.waiter.running = true := by rw [hpc]; rfl
    split at hstep
    · cases hstep
      obtain ⟨hparked, hstopped⟩ := parked_running config.surface observed unclassified false
      exact h.keepWaiter hrunning hparked (by rw [hstopped]; exact unset)
    · split at hstep
      · cases hstep
        obtain ⟨hparked, hstopped⟩ := parked_running config.surface observed unclassified true
        exact (h.keepWaiter hrunning hparked (by rw [hstopped]; exact unset)).frame
          rfl rfl rfl rfl rfl rfl rfl rfl
      · cases hstep
  | countWake observed unclassified =>
    simp only [WakeLatency.waiterNext, hpc] at hstep
    cases hstep
    exact h.keepWaiter (by rw [hpc]; rfl) rfl unset
  | rereadGeneration observed unclassified =>
    simp only [WakeLatency.waiterNext, hpc] at hstep
    cases hstep
    exact h.keepWaiter (by rw [hpc]; rfl) rfl unset
  | loadStop observed unclassified =>
    simp only [WakeLatency.waiterNext, hpc] at hstep
    have hrunning : t.waiter.running = true := by rw [hpc]; rfl
    split at hstep
    case isTrue hstop =>
      cases hstep
      exact (h.keepWaiter (p := .returned (.ok ())) hrunning rfl (fun _ => hstop)).frame
        rfl rfl rfl rfl rfl rfl rfl rfl
    case isFalse =>
      cases hstep
      exact h.keepWaiter hrunning rfl unset
  | stamp observed unclassified =>
    simp only [WakeLatency.waiterNext, hpc] at hstep
    cases hstep
    exact h.keepWaiter (by rw [hpc]; rfl) rfl unset
  | loadSent observed unclassified received =>
    simp only [WakeLatency.waiterNext, hpc] at hstep
    cases hstep
    have hrunning : t.waiter.running = true := by rw [hpc]; rfl
    split
    · exact (h.keepWaiter (p := .storeStop observed) hrunning rfl unset).frame
        rfl rfl rfl rfl rfl rfl rfl rfl
    · exact (h.keepWaiter (p := .storeAcknowledged observed) hrunning rfl unset).frame
        rfl rfl rfl rfl rfl rfl rfl rfl
  | storeStop observed =>
    simp only [WakeLatency.waiterNext, hpc] at hstep
    cases hstep
    have hrunning : t.waiter.running = true := by rw [hpc]; rfl
    exact h.storeStop.keepWaiter hrunning rfl unset
  | storeAcknowledged observed =>
    simp only [WakeLatency.waiterNext, hpc] at hstep
    cases hstep
    obtain ⟨hrunning, hstopped⟩ := loopHead_running config.surface observed
    exact (h.keepWaiter (by rw [hpc]; rfl) hrunning (by rw [hstopped]; exact unset)).frame
      rfl rfl rfl rfl rfl rfl rfl rfl
  | returned result =>
    simp only [WakeLatency.waiterNext, hpc] at hstep
    cases hstep

/-- A step of the producer that stores nothing. -/
theorem moveProducer (h : Startup t) {p : ProducerPc}
    (hannounced : p.announced = t.producer.announced)
    (hstop : p.stopped = true → t.shared.stop = true)
    (hgo : p.released = true → t.shared.go = true)
    (hlaunched : p.running = true → t.controller.launched = true)
    (hspawned : t.producer ≠ .unspawned) : Startup { t with producer := p } :=
  { h with
    ready := by
      rw [h.ready, ← hannounced]
    producerStopped := hstop
    producerReleased := hgo
    producerRunning := hlaunched
    noProducer := fun hbefore => absurd (h.noProducer hbefore) hspawned }

/-- Once the producer has passed the barrier, `go` is set for good. -/
theorem keepProducer (h : Startup t) {p : ProducerPc}
    (hproducer : t.producer.released = true ∧ t.producer.announced = true)
    (hannounced : p.announced = true) (hstop : p.stopped = true → t.shared.stop = true)
    (hlaunched : p.running = true → t.controller.launched = true) :
    Startup { t with producer := p } := by
  obtain ⟨hreleased, hwas⟩ := hproducer
  have hspawned : t.producer ≠ .unspawned := by
    intro heq
    rw [heq] at hreleased
    cases hreleased
  exact h.moveProducer (hannounced.trans hwas.symm) hstop (fun _ => h.producerReleased hreleased)
    hlaunched hspawned

theorem passed_of_running {p : ProducerPc} (h : p.running = true) :
    p.released = true ∧ p.announced = true := by
  unfold ProducerPc.running at h
  unfold ProducerPc.released ProducerPc.announced
  split at h <;> grind

/-- A producer that runs and goes on running. -/
theorem runProducer (h : Startup t) {p : ProducerPc} (hproducer : t.producer.running = true)
    (hpc : p.running = true) (hstopped : p.stopped = false) :
    Startup { t with producer := p } := by
  have hlaunched := h.producerRunning hproducer
  apply h.keepProducer (passed_of_running hproducer) (passed_of_running hpc).2
  · rw [hstopped]
    exact unset
  · exact fun _ => hlaunched

/-- The producer announces itself once. -/
theorem announceProducer (h : Startup t) (hproducer : t.producer = .announceReady) :
    Startup { t.addReady with producer := .loadGo } :=
  { h with
    ready := by
      have hready := h.ready
      rw [hproducer] at hready
      show t.shared.ready + 1 = t.waiter.announced.toNat + 1 + t.victim.announced.toNat
      rw [hready]
      show t.waiter.announced.toNat + 0 + t.victim.announced.toNat + 1 = _
      omega
    producerStopped := unset
    counted := fun hcounted =>
      absurd (h.announced_of_counted hcounted).2.1 (by rw [hproducer]; exact unset)
    producerReleased := unset
    producerRunning := unset
    noProducer := fun hbefore =>
      absurd (h.noProducer hbefore) (by rw [hproducer]; intro heq; cases heq) }

/-- A step of the producer keeps the invariant of the start. -/
theorem producerNext (h : Startup t) (hstep : producerNext config chance t = some t') :
    Startup t' := by
  cases hpc : t.producer with
  | unspawned =>
    simp only [WakeLatency.producerNext, hpc] at hstep
    cases hstep
  | pinCurrent =>
    simp only [WakeLatency.producerNext, hpc] at hstep
    have hspawned : t.producer ≠ .unspawned := by rw [hpc]; intro h; cases h
    split at hstep
    · cases hstep
      exact h.moveProducer (by rw [hpc]; rfl) unset unset unset hspawned
    · cases hstep
      exact (h.moveProducer (p := .announceReady) (by rw [hpc]; rfl) unset unset unset
        hspawned).frame rfl rfl rfl rfl rfl rfl rfl rfl
  | abortStartup error due =>
    simp only [WakeLatency.producerNext, hpc] at hstep
    cases hstep
    have hspawned : t.producer ≠ .unspawned := by rw [hpc]; intro h; cases h
    have hstop := h.producerStopped
    have hgo := h.producerReleased
    have hlaunched := h.producerRunning
    rw [hpc] at hstop hgo hlaunched
    cases due with
    | storeStop =>
      refine h.storeStop.moveProducer ?_ (fun _ => rfl) ?_ ?_ hspawned
      · show _ = t.producer.announced
        rw [hpc]
        cases error <;> rfl
      · cases error with
        | pin => exact unset
        | migrated => exact hgo
      · cases error with
        | pin => exact unset
        | migrated => exact hlaunched
    | storeGo =>
      refine (h.storeGo (hstop rfl)).moveProducer ?_ (fun _ => hstop rfl) (fun _ => rfl) ?_ hspawned
      · show _ = t.producer.announced
        rw [hpc]
        cases error <;> rfl
      · cases error with
        | pin => exact unset
        | migrated => exact hlaunched
    | addGeneration =>
      refine (h.addGeneration (hstop rfl)).moveProducer ?_ (fun _ => hstop rfl) ?_ ?_ hspawned
      · show _ = t.producer.announced
        rw [hpc]
        cases error <;> rfl
      · intro _
        cases error <;> exact hgo rfl
      · cases error with
        | pin => exact unset
        | migrated => exact hlaunched
  | wakeAborted error =>
    simp only [WakeLatency.producerNext, hpc] at hstep
    cases hstep
    have hspawned : t.producer ≠ .unspawned := by rw [hpc]; intro h; cases h
    have hstop : t.shared.stop = true := h.producerStopped (by rw [hpc]; rfl)
    have hgo : t.shared.go = true := h.producerReleased (by rw [hpc]; rfl)
    have hlaunched := h.producerRunning
    rw [hpc] at hlaunched
    refine (h.moveProducer (p := .returned (.error error)) ?_ (fun _ => hstop) (fun _ => hgo) ?_
      hspawned).frame rfl rfl rfl rfl rfl rfl rfl rfl
    · rw [hpc]
      cases error <;> rfl
    · cases error with
      | pin => exact unset
      | migrated => exact hlaunched
  | announceReady =>
    simp only [WakeLatency.producerNext, hpc] at hstep
    cases hstep
    exact h.announceProducer hpc
  | loadGo =>
    simp only [WakeLatency.producerNext, hpc] at hstep
    cases hstep
    have hspawned : t.producer ≠ .unspawned := by rw [hpc]; intro h; cases h
    split
    case isTrue hgo => exact h.moveProducer (by rw [hpc]; rfl) unset (fun _ => hgo) unset hspawned
    case isFalse => exact h.moveProducer (by rw [hpc]) unset unset unset hspawned
  | loadStop sequence =>
    simp only [WakeLatency.producerNext, hpc] at hstep
    cases hstep
    have hpassed : t.producer.released = true ∧ t.producer.announced = true := by
      rw [hpc]
      exact ⟨rfl, rfl⟩
    split
    case isTrue hstop => exact h.keepProducer hpassed rfl (fun _ => hstop) unset
    case isFalse hstop =>
      have hlaunched := (h.go (h.producerReleased hpassed.1)).resolve_left hstop
      exact h.keepProducer hpassed rfl unset (fun _ => hlaunched)
  | loadAcknowledged sequence =>
    simp only [WakeLatency.producerNext, hpc] at hstep
    cases hstep
    have hrunning : t.producer.running = true := by rw [hpc]; rfl
    split
    · exact h.runProducer hrunning rfl rfl
    · exact h.runProducer hrunning rfl rfl
  | loadStopUnacknowledged sequence =>
    simp only [WakeLatency.producerNext, hpc] at hstep
    cases hstep
    have hrunning : t.producer.running = true := by rw [hpc]; rfl
    split
    · exact h.runProducer hrunning rfl rfl
    · exact h.runProducer hrunning rfl rfl
  | loadStopAfterWait sequence =>
    simp only [WakeLatency.producerNext, hpc] at hstep
    cases hstep
    have hrunning : t.producer.running = true := by rw [hpc]; rfl
    split
    case isTrue hstop =>
      exact h.keepProducer (by rw [hpc]; exact ⟨rfl, rfl⟩) rfl (fun _ => hstop) unset
    case isFalse =>
      split
      · exact h.runProducer hrunning rfl rfl
      · exact h.runProducer hrunning rfl rfl
  | cancellableGap sequence =>
    simp only [WakeLatency.producerNext, hpc] at hstep
    cases hstep
    have hrunning : t.producer.running = true := by rw [hpc]; rfl
    split
    · exact h.runProducer hrunning rfl rfl
    · exact h.runProducer hrunning rfl rfl
  | loadStopAfterGap sequence =>
    simp only [WakeLatency.producerNext, hpc] at hstep
    cases hstep
    have hrunning : t.producer.running = true := by rw [hpc]; rfl
    split
    case isTrue hstop =>
      exact h.keepProducer (by rw [hpc]; exact ⟨rfl, rfl⟩) rfl (fun _ => hstop) unset
    case isFalse =>
      exact h.runProducer hrunning rfl rfl
  | stamp sequence =>
    simp only [WakeLatency.producerNext, hpc] at hstep
    cases hstep
    have hrunning : t.producer.running = true := by rw [hpc]; rfl
    split
    · exact h.runProducer hrunning rfl rfl
    · exact h.runProducer hrunning rfl rfl
  | storeSent sequence sent =>
    simp only [WakeLatency.producerNext, hpc] at hstep
    cases hstep
    have hrunning : t.producer.running = true := by rw [hpc]; rfl
    exact (h.runProducer hrunning (p := .storeGeneration sequence sent) rfl rfl).frame
      rfl rfl rfl rfl rfl rfl rfl rfl
  | storeGeneration sequence sent =>
    simp only [WakeLatency.producerNext, hpc] at hstep
    cases hstep
    have hrunning : t.producer.running = true := by rw [hpc]; rfl
    exact (h.runProducer hrunning (p := .wake sequence) rfl rfl).frame
      rfl rfl rfl rfl rfl rfl rfl rfl
  | wake sequence =>
    simp only [WakeLatency.producerNext, hpc] at hstep
    cases hstep
    exact (h.keepProducer (by rw [hpc]; exact ⟨rfl, rfl⟩) (p := .loadStop sequence) rfl
      unset unset).frame rfl rfl rfl rfl rfl rfl rfl rfl
  | exitStop =>
    simp only [WakeLatency.producerNext, hpc] at hstep
    cases hstep
    exact h.storeStop.keepProducer
      (by show t.producer.released = true ∧ t.producer.announced = true; rw [hpc]; exact ⟨rfl, rfl⟩)
      rfl (fun _ => rfl) unset
  | exitGeneration =>
    simp only [WakeLatency.producerNext, hpc] at hstep
    cases hstep
    have hstop : t.shared.stop = true := h.producerStopped (by rw [hpc]; rfl)
    exact (h.addGeneration hstop).keepProducer
      (by show t.producer.released = true ∧ t.producer.announced = true; rw [hpc]; exact ⟨rfl, rfl⟩)
      rfl (fun _ => hstop) unset
  | exitWake =>
    simp only [WakeLatency.producerNext, hpc] at hstep
    cases hstep
    have hstop : t.shared.stop = true := h.producerStopped (by rw [hpc]; rfl)
    exact (h.keepProducer (by rw [hpc]; exact ⟨rfl, rfl⟩) (p := .returned (.ok ())) rfl
      (fun _ => hstop) unset).frame rfl rfl rfl rfl rfl rfl rfl rfl
  | returned result =>
    simp only [WakeLatency.producerNext, hpc] at hstep
    cases hstep

theorem moveVictim (h : Startup t) {p : VictimPc} (hannounced : p.announced = t.victim.announced)
    (hstop : p.stopped = true → t.shared.stop = true) (hspawned : t.victim ≠ .unspawned) :
    Startup { t with victim := p } :=
  { h with
    ready := by
      rw [h.ready, ← hannounced]
    victimStopped := hstop
    noVictim := fun hbefore => absurd (h.noVictim hbefore) hspawned }

/-- The victim announces itself once. -/
theorem announceVictim (h : Startup t) (hvictim : t.victim = .announceReady) :
    Startup { t.addReady with victim := .loadGo } :=
  { h with
    ready := by
      have hready := h.ready
      rw [hvictim] at hready
      show t.shared.ready + 1 = t.waiter.announced.toNat + t.producer.announced.toNat + 1
      rw [hready]
      rfl
    victimStopped := unset
    counted := fun hcounted =>
      absurd (h.announced_of_counted hcounted).2.2 (by rw [hvictim]; exact unset)
    noVictim := fun hbefore => absurd (h.noVictim hbefore) (by rw [hvictim]; intro heq; cases heq) }

/-- A step of the victim keeps the invariant of the start. -/
theorem victimNext (h : Startup t) (hstep : victimNext chance t = some t') : Startup t' := by
  cases hpc : t.victim with
  | unspawned =>
    simp only [WakeLatency.victimNext, hpc] at hstep
    cases hstep
  | pinCurrent =>
    simp only [WakeLatency.victimNext, hpc] at hstep
    have hspawned : t.victim ≠ .unspawned := by rw [hpc]; intro h; cases h
    split at hstep
    · cases hstep
      exact h.moveVictim (by rw [hpc]; rfl) unset hspawned
    · cases hstep
      exact h.moveVictim (by rw [hpc]; rfl) unset hspawned
  | abortStartup error due =>
    simp only [WakeLatency.victimNext, hpc] at hstep
    cases hstep
    have hspawned : t.victim ≠ .unspawned := by rw [hpc]; intro h; cases h
    have hannounced : t.victim.announced = false := by rw [hpc]; rfl
    have hstop := h.victimStopped
    rw [hpc] at hstop
    cases due with
    | storeStop => exact h.storeStop.moveVictim hannounced.symm (fun _ => rfl) hspawned
    | storeGo =>
      exact (h.storeGo (hstop rfl)).moveVictim hannounced.symm (fun _ => hstop rfl) hspawned
    | addGeneration =>
      exact (h.addGeneration (hstop rfl)).moveVictim hannounced.symm unset hspawned
  | announceReady =>
    simp only [WakeLatency.victimNext, hpc] at hstep
    cases hstep
    exact h.announceVictim hpc
  | loadGo =>
    simp only [WakeLatency.victimNext, hpc] at hstep
    cases hstep
    have hspawned : t.victim ≠ .unspawned := by rw [hpc]; intro h; cases h
    split
    · exact h.moveVictim (by rw [hpc]; rfl) unset hspawned
    · exact h.moveVictim (by rw [hpc]) unset hspawned
  | loadStop chunks =>
    simp only [WakeLatency.victimNext, hpc] at hstep
    cases hstep
    have hspawned : t.victim ≠ .unspawned := by rw [hpc]; intro h; cases h
    split
    · refine h.moveVictim ?_ unset hspawned
      rw [hpc]
      split <;> rfl
    · split
      · exact h.moveVictim (by rw [hpc]; rfl) unset hspawned
      · exact h.moveVictim (by rw [hpc]; rfl) unset hspawned
  | returned result =>
    simp only [WakeLatency.victimNext, hpc] at hstep
    cases hstep

/-- A step of the controller that stores nothing. -/
theorem moveController (h : Startup t) {p : ControllerPc}
    (hstop : p.stopped = true → t.shared.stop = true)
    (hlaunched : t.controller.launched = p.launched)
    (hcounted : p.counted = true → t.shared.ready = 3)
    (hproducer : p.beforeProducer = true → t.producer = .unspawned)
    (hvictim : p.beforeVictim = true → t.victim = .unspawned) :
    Startup { t with controller := p } :=
  { h with
    controllerStopped := hstop
    go := by
      show t.shared.go = true → t.shared.stop = true ∨ p.launched = true
      rw [← hlaunched]
      exact h.go
    counted := hcounted
    waiterRunning := by
      show t.waiter.running = true → p.launched = true
      rw [← hlaunched]
      exact h.waiterRunning
    producerRunning := by
      show t.producer.running = true → p.launched = true
      rw [← hlaunched]
      exact h.producerRunning
    noProducer := hproducer
    noVictim := hvictim }

/-- A step of the controller keeps the invariant of the start. -/
theorem driveTrialNext (h : Startup t) (hstep : driveTrialNext chance t = some t') :
    Startup t' := by
  have hstop := h.controllerStopped
  have hcounted := h.counted
  have hproducer := h.noProducer
  have hvictim := h.noVictim
  cases hpc : t.controller with
  | receiveHandle =>
    simp only [WakeLatency.driveTrialNext, hpc] at hstep
    rw [hpc] at hproducer hvictim
    split at hstep
    · cases hstep
      exact h.moveController unset (by rw [hpc]; rfl) unset unset unset
    · split at hstep
      · cases hstep
        exact h.moveController unset (by rw [hpc]; rfl) unset hproducer hvictim
      · cases hstep
  | spawnProducer =>
    simp only [WakeLatency.driveTrialNext, hpc] at hstep
    cases hstep
    rw [hpc] at hproducer hvictim
    have hmoved : Startup { t with controller := .spawnVictim } :=
      h.moveController unset (by rw [hpc]; rfl) unset unset hvictim
    exact
      { hmoved with
        ready := by
          have hready := h.ready
          rw [hproducer rfl] at hready
          exact hready
        producerStopped := unset
        producerReleased := unset
        producerRunning := unset
        noProducer := unset }
  | spawnVictim =>
    simp only [WakeLatency.driveTrialNext, hpc] at hstep
    cases hstep
    rw [hpc] at hvictim
    have hmoved : Startup { t with controller := .loadReady } :=
      h.moveController unset (by rw [hpc]; rfl) unset unset unset
    exact
      { hmoved with
        ready := by
          have hready := h.ready
          rw [hvictim rfl] at hready
          exact hready
        victimStopped := unset
        noVictim := unset }
  | loadReady =>
    simp only [WakeLatency.driveTrialNext, hpc] at hstep
    cases hstep
    split
    · exact h.moveController unset (by rw [hpc]; rfl) unset unset unset
    case isFalse hready =>
      exact h.moveController unset (by rw [hpc]; rfl) (fun _ => not_not.mp hready) unset unset
  | loadStop =>
    simp only [WakeLatency.driveTrialNext, hpc] at hstep
    cases hstep
    split
    case isTrue hstop =>
      exact h.moveController (fun _ => hstop) (by rw [hpc]; rfl) unset unset unset
    case isFalse => exact h.moveController unset (by rw [hpc]; rfl) unset unset unset
  | checkTimeout =>
    simp only [WakeLatency.driveTrialNext, hpc] at hstep
    cases hstep
    split
    · exact h.moveController unset (by rw [hpc]; rfl) unset unset unset
    · exact h.moveController unset (by rw [hpc]; rfl) unset unset unset
  | storeGoFailed =>
    simp only [WakeLatency.driveTrialNext, hpc] at hstep
    cases hstep
    rw [hpc] at hstop
    have hlaunched : t.controller.launched = false := by rw [hpc]; rfl
    exact (h.storeGo (hstop rfl)).moveController unset hlaunched unset unset unset
  | abortStartup due =>
    simp only [WakeLatency.driveTrialNext, hpc] at hstep
    cases hstep
    have hlaunched : t.controller.launched = false := by rw [hpc]; rfl
    rw [hpc] at hstop
    cases due with
    | storeStop => exact h.storeStop.moveController (fun _ => rfl) hlaunched unset unset unset
    | storeGo =>
      exact (h.storeGo (hstop rfl)).moveController (fun _ => hstop rfl) hlaunched unset unset unset
    | addGeneration =>
      exact (h.addGeneration (hstop rfl)).moveController unset hlaunched unset unset unset
  | storeGo =>
    simp only [WakeLatency.driveTrialNext, hpc] at hstep
    cases hstep
    rw [hpc] at hcounted
    exact
      { h with
        controllerStopped := unset
        go := fun _ => .inr rfl
        counted := fun _ => hcounted rfl
        waiterReleased := fun _ => rfl
        producerReleased := fun _ => rfl
        waiterRunning := fun _ => rfl
        producerRunning := fun _ => rfl
        noProducer := unset
        noVictim := unset }
  | preciseDelay =>
    simp only [WakeLatency.driveTrialNext, hpc] at hstep
    cases hstep
    rw [hpc] at hcounted
    split
    · exact h.moveController unset (by rw [hpc]; rfl) hcounted unset unset
    · exact h.moveController unset (by rw [hpc]) hcounted unset unset
  | storeStop =>
    simp only [WakeLatency.driveTrialNext, hpc] at hstep
    cases hstep
    rw [hpc] at hcounted
    exact h.storeStop.moveController unset (by show t.controller.launched = _; rw [hpc]; rfl)
      hcounted unset unset
  | returned result =>
    simp only [WakeLatency.driveTrialNext, hpc] at hstep
    cases hstep

end Startup

theorem startup_reach (h : TrialReach config (.new config) t) : Startup t := by
  induction h with
  | refl => exact startup_new config
  | tail _ hstep ih =>
    obtain ⟨chance, thread, hstep⟩ := hstep
    cases thread with
    | waiter => exact ih.waiterNext hstep
    | producer => exact ih.producerNext hstep
    | victim => exact ih.victimNext hstep
    | controller => exact ih.driveTrialNext hstep

open Results in
/-- A trial is concluded well only when no thread has failed; it has then been released and
stopped, and reports what the waiter has measured. -/
theorem concluded_trial {victimMetrics : VictimMetrics} {trial : ContenderTrial}
    (h : TrialReach config (.new config) t)
    (htrial : t.conclude config victimMetrics = some (.ok trial)) :
    trial = ⟨t.locals.metrics, victimMetrics⟩ ∧ t.shared.go = true ∧ t.shared.stop = true ∧
      t.controller = .returned (.ok ()) ∧ t.waiter = .returned (.ok ()) ∧
      t.producer = .returned (.ok ()) ∧ t.victim = .returned (.ok ()) := by
  have hstartup := startup_reach h
  unfold Trial.conclude at htrial
  split at htrial
  · cases htrial
  · next drive waiter producer victim _ hcontroller hwaiter hproducer hvictim =>
    obtain ⟨_, hdrive, h₁⟩ := bind_eq_ok.mp (Option.some.inj htrial)
    obtain ⟨_, hwaited, h₂⟩ := bind_eq_ok.mp h₁
    obtain ⟨_, hproduced, h₃⟩ := bind_eq_ok.mp h₂
    obtain ⟨_, hharmed, h₄⟩ := bind_eq_ok.mp h₃
    obtain ⟨_, -, hend⟩ := bind_eq_ok.mp h₄
    have hdriven := mapError_eq_ok.mp (mapError_eq_ok.mp hdrive)
    have hwoken := mapError_eq_ok.mp (mapError_eq_ok.mp hproduced)
    obtain ⟨_, hmeasured, rfl⟩ := map_eq_ok.mp (mapError_eq_ok.mp hwaited)
    obtain ⟨_, hsuffered, rfl⟩ := map_eq_ok.mp (mapError_eq_ok.mp hharmed)
    have hmeasured := mapError_eq_ok.mp hmeasured
    have hsuffered := mapError_eq_ok.mp hsuffered
    subst hdriven hwoken hmeasured hsuffered
    refine ⟨(pure_eq_ok.mp hend), ?_, ?_, hcontroller, hwaiter, hproducer, hvictim⟩
    · exact hstartup.producerReleased (by rw [hproducer]; rfl)
    · exact hstartup.producerStopped (by rw [hproducer]; rfl)
  · cases htrial

end Snoozer.WakeLatency
