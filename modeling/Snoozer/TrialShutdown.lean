import Snoozer.TrialPublications
import Snoozer.ParkerMailbox

/-! The end of a trial: nobody keeps waiting once the producer has returned, since the waiter only
waits on a generation that the last increment replaces and every increment is followed by a wake. -/
namespace Snoozer.WakeLatency

/-- The waiter cannot go on unless somebody else takes a step: it spins on `go`, waits on the
generation that it has seen last, or is parked without a token, whatever the generation is. -/
def Trial.WaiterBlocked (t : Trial) : Prop :=
  match t.waiter with
  | .loadGo _ => t.shared.go = false
  | .waitDirect observed _ => t.shared.generation = observed
  | .park _ _ => t.token ≠ notifiedToken
  | _ => False

/-- The position is in the loop that parks. -/
def WaiterPc.parks : WaiterPc → Bool
  | compareGeneration _ _ | park _ _ | countWake _ _ | rereadGeneration _ _ => true
  | _ => false

/-- A wake is due. -/
def ProducerPc.waking : ProducerPc → Bool
  | wake _ | exitWake | wakeAborted _ => true
  | _ => false

variable {config : TrialConfig} {chance : Chance} {t t' : Trial}

/-- A waiter that parks on a generation that is gone has a token or is about to get one. -/
structure Wakeups (config : TrialConfig) (t : Trial) : Prop where
  surface : t.waiter.parks = true → config.surface ≠ .direct
  token : t.token = emptyToken ∨ t.token = notifiedToken
  parked : ∀ observed unclassified, t.waiter = .park observed unclassified →
    t.shared.generation ≠ observed → t.token = notifiedToken ∨ t.producer.waking = true

theorem wakeups_new (config : TrialConfig) : Wakeups config (.new config) where
  surface := unset
  token := .inl rfl
  parked := fun _ _ heq => WaiterPc.noConfusion heq

namespace Wakeups

/-- A wake leaves a token unless nobody parks. -/
theorem wake (h : Wakeups config t) {p : ProducerPc} :
    Wakeups config { t.wake config.surface with producer := p } := by
  have htoken : config.surface ≠ .direct → (t.wake config.surface).token = notifiedToken := by
    intro hsurface
    unfold Trial.wake
    cases heq : config.surface with
    | direct => exact absurd heq hsurface
    | singleParker => rfl
    | multiParker => exact unparkToken_notified .multi h.token
    | stdPark => rfl
  exact
    { surface := h.surface
      token := by
        by_cases hsurface : config.surface = .direct
        · show (t.wake config.surface).token = _ ∨ (t.wake config.surface).token = _
          rw [hsurface]
          exact h.token
        · exact .inr (htoken hsurface)
      parked := by
        intro observed unclassified hwaiter _
        have hparks : t.waiter.parks = true := by
          rw [show t.waiter = .park observed unclassified from hwaiter]
          rfl
        exact .inl (htoken (h.surface hparks)) }

theorem moveWaiter (h : Wakeups config t) {p : WaiterPc}
    (hsurface : p.parks = true → config.surface ≠ .direct)
    (hpark : ∀ observed unclassified, p = .park observed unclassified →
      t.shared.generation = observed) : Wakeups config { t with waiter := p } where
  surface := hsurface
  token := h.token
  parked := fun observed unclassified hwaiter hne =>
    absurd (hpark observed unclassified hwaiter) hne

/-- Outside of the loop that parks. -/
theorem leave (h : Wakeups config t) {p : WaiterPc} (hparks : p.parks = false) :
    Wakeups config { t with waiter := p } := by
  apply h.moveWaiter
  · rw [hparks]
    exact unset
  · intro observed unclassified heq
    rw [heq] at hparks
    cases hparks

theorem moveProducer (h : Wakeups config t) {p : ProducerPc}
    (hwaking : t.producer.waking = true → p.waking = true) :
    Wakeups config { t with producer := p } :=
  { h with
    parked := fun observed unclassified hwaiter hne =>
      (h.parked observed unclassified hwaiter hne).imp_right hwaking }

/-- Whoever changes the generation is about to wake the waiter, or there is none that parks. -/
theorem generation (h : Wakeups config t) (htoken : t'.token = t.token)
    (hwaiter : t'.waiter = t.waiter)
    (hwaking : t'.producer.waking = true ∨ t.waiter.running = false) : Wakeups config t' where
  surface := by
    rw [hwaiter]
    exact h.surface
  token := by
    rw [htoken]
    exact h.token
  parked := by
    intro observed unclassified hpark _
    rcases hwaking with hwaking | hidle
    · exact .inr hwaking
    · rw [← hwaiter, hpark] at hidle
      cases hidle

theorem loopHead_parks (surface : Surface) (observed : ℕ)
    (h : (WaiterPc.loopHead surface observed).parks = true) : surface ≠ .direct := by
  cases surface with
  | direct => cases h
  | singleParker => decide
  | multiParker => decide
  | stdPark => decide

theorem loopHead_ne_park (surface : Surface) (seen observed unclassified : ℕ) :
    WaiterPc.loopHead surface seen ≠ .park observed unclassified := by
  cases surface <;> intro heq <;> cases heq

theorem parked_ne_park (surface : Surface) (seen count observed unclassified : ℕ)
    (notified : Bool) :
    WaiterPc.parked surface seen count notified ≠ .park observed unclassified := by
  cases surface <;> intro heq <;> cases heq

/-- A step of the waiter keeps every shutdown followed by a wake. -/
theorem waiterNext (h : Wakeups config t) (hstep : waiterNext config chance t = some t') :
    Wakeups config t' := by
  have hsurface := h.surface
  cases hpc : t.waiter with
  | pinCurrent =>
    simp only [WakeLatency.waiterNext, hpc] at hstep
    split at hstep
    · cases hstep
      exact h.leave rfl
    · cases hstep
      split
      · exact { h.leave (p := .sendHandle) rfl with }
      · exact { h.leave (p := .captureGeneration) rfl with }
  | abortStartup error due =>
    simp only [WakeLatency.waiterNext, hpc] at hstep
    cases hstep
    cases due with
    | storeStop => exact { h.leave (p := .abortStartup error .storeGo) rfl with }
    | storeGo => exact { h.leave (p := .abortStartup error .addGeneration) rfl with }
    | addGeneration =>
      exact
        { surface := unset
          token := h.token
          parked := fun _ _ heq => WaiterPc.noConfusion heq }
  | sendHandle =>
    simp only [WakeLatency.waiterNext, hpc] at hstep
    split at hstep
    · cases hstep
      exact h.leave rfl
    · cases hstep
      exact h.leave rfl
  | captureGeneration =>
    simp only [WakeLatency.waiterNext, hpc] at hstep
    cases hstep
    exact h.leave rfl
  | announceReady observed =>
    simp only [WakeLatency.waiterNext, hpc] at hstep
    cases hstep
    exact { h.leave (p := .loadGo observed) rfl with }
  | loadGo observed =>
    simp only [WakeLatency.waiterNext, hpc] at hstep
    cases hstep
    split
    · exact h.leave rfl
    · exact h.leave rfl
  | loadStopAtStart observed =>
    simp only [WakeLatency.waiterNext, hpc] at hstep
    cases hstep
    split
    · exact h.leave rfl
    · exact h.moveWaiter (loopHead_parks config.surface observed) fun _ _ heq =>
        absurd heq (loopHead_ne_park config.surface _ _ _)
  | waitDirect observed unclassified =>
    simp only [WakeLatency.waiterNext, hpc] at hstep
    split at hstep
    · cases hstep
      exact h.leave rfl
    · split at hstep
      · cases hstep
        exact h.leave rfl
      · cases hstep
  | reloadGeneration observed unclassified =>
    simp only [WakeLatency.waiterNext, hpc] at hstep
    cases hstep
    split
    · exact h.leave rfl
    · exact h.leave rfl
  | compareGeneration observed unclassified =>
    rw [hpc] at hsurface
    simp only [WakeLatency.waiterNext, hpc] at hstep
    cases hstep
    split
    case isTrue heq =>
      -- the waiter parks only on the generation that it has just seen
      apply h.moveWaiter fun _ => hsurface rfl
      intro seen count hpark
      cases hpark
      exact heq
    case isFalse =>
      exact h.moveWaiter (fun _ => hsurface rfl) fun _ _ heq => WaiterPc.noConfusion heq
  | park observed unclassified =>
    rw [hpc] at hsurface
    simp only [WakeLatency.waiterNext, hpc] at hstep
    split at hstep
    · cases hstep
      exact h.moveWaiter (fun _ => hsurface rfl) fun _ _ heq =>
        absurd heq (parked_ne_park config.surface _ _ _ _ _)
    · split at hstep
      · cases hstep
        exact
          { surface := fun _ => hsurface rfl
            token := .inl rfl
            parked := fun _ _ heq => absurd heq (parked_ne_park config.surface _ _ _ _ _) }
      · cases hstep
  | countWake observed unclassified =>
    rw [hpc] at hsurface
    simp only [WakeLatency.waiterNext, hpc] at hstep
    cases hstep
    exact h.moveWaiter (fun _ => hsurface rfl) fun _ _ heq => WaiterPc.noConfusion heq
  | rereadGeneration observed unclassified =>
    simp only [WakeLatency.waiterNext, hpc] at hstep
    cases hstep
    exact h.leave rfl
  | loadStop observed unclassified =>
    simp only [WakeLatency.waiterNext, hpc] at hstep
    split at hstep
    · cases hstep
      exact { h.leave (p := .returned (.ok ())) rfl with }
    · cases hstep
      exact h.leave rfl
  | stamp observed unclassified =>
    simp only [WakeLatency.waiterNext, hpc] at hstep
    cases hstep
    exact h.leave rfl
  | loadSent observed unclassified received =>
    simp only [WakeLatency.waiterNext, hpc] at hstep
    cases hstep
    split
    · exact { h.leave (p := .storeStop observed) rfl with }
    · exact { h.leave (p := .storeAcknowledged observed) rfl with }
  | storeStop observed =>
    simp only [WakeLatency.waiterNext, hpc] at hstep
    cases hstep
    exact { h.leave (p := .storeAcknowledged observed) rfl with }
  | storeAcknowledged observed =>
    simp only [WakeLatency.waiterNext, hpc] at hstep
    cases hstep
    exact
      { surface := loopHead_parks config.surface observed
        token := h.token
        parked := fun _ _ heq => absurd heq (loopHead_ne_park config.surface _ _ _) }
  | returned result =>
    simp only [WakeLatency.waiterNext, hpc] at hstep
    cases hstep

/-- A step of the producer keeps every shutdown followed by a wake. -/
theorem producerNext (h : Wakeups config t) (hstep : producerNext config chance t = some t') :
    Wakeups config t' := by
  cases hpc : t.producer with
  | unspawned =>
    simp only [WakeLatency.producerNext, hpc] at hstep
    cases hstep
  | pinCurrent =>
    simp only [WakeLatency.producerNext, hpc] at hstep
    split at hstep
    · cases hstep
      exact h.moveProducer (by rw [hpc]; exact unset)
    · cases hstep
      exact { h.moveProducer (p := .announceReady) (by rw [hpc]; exact unset) with }
  | abortStartup error due =>
    simp only [WakeLatency.producerNext, hpc] at hstep
    cases hstep
    cases due with
    | storeStop =>
      exact { h.moveProducer (p := .abortStartup error .storeGo) (by rw [hpc]; exact unset) with }
    | storeGo =>
      exact
        { h.moveProducer (p := .abortStartup error .addGeneration) (by rw [hpc]; exact unset) with }
    | addGeneration => exact h.generation rfl rfl (.inl rfl)
  | wakeAborted error =>
    simp only [WakeLatency.producerNext, hpc] at hstep
    cases hstep
    exact h.wake
  | announceReady =>
    simp only [WakeLatency.producerNext, hpc] at hstep
    cases hstep
    exact { h.moveProducer (p := .loadGo) (by rw [hpc]; exact unset) with }
  | loadGo =>
    simp only [WakeLatency.producerNext, hpc] at hstep
    cases hstep
    exact h.moveProducer (by rw [hpc]; exact unset)
  | loadStop sequence =>
    simp only [WakeLatency.producerNext, hpc] at hstep
    cases hstep
    exact h.moveProducer (by rw [hpc]; exact unset)
  | loadAcknowledged sequence =>
    simp only [WakeLatency.producerNext, hpc] at hstep
    cases hstep
    exact h.moveProducer (by rw [hpc]; exact unset)
  | loadStopUnacknowledged sequence =>
    simp only [WakeLatency.producerNext, hpc] at hstep
    cases hstep
    exact h.moveProducer (by rw [hpc]; exact unset)
  | loadStopAfterWait sequence =>
    simp only [WakeLatency.producerNext, hpc] at hstep
    cases hstep
    exact h.moveProducer (by rw [hpc]; exact unset)
  | cancellableGap sequence =>
    simp only [WakeLatency.producerNext, hpc] at hstep
    cases hstep
    exact h.moveProducer (by rw [hpc]; exact unset)
  | loadStopAfterGap sequence =>
    simp only [WakeLatency.producerNext, hpc] at hstep
    cases hstep
    exact h.moveProducer (by rw [hpc]; exact unset)
  | stamp sequence =>
    simp only [WakeLatency.producerNext, hpc] at hstep
    cases hstep
    exact h.moveProducer (by rw [hpc]; exact unset)
  | storeSent sequence sent =>
    simp only [WakeLatency.producerNext, hpc] at hstep
    cases hstep
    exact { h.moveProducer (p := .storeGeneration sequence sent) (by rw [hpc]; exact unset) with }
  | storeGeneration sequence sent =>
    simp only [WakeLatency.producerNext, hpc] at hstep
    cases hstep
    exact h.generation rfl rfl (.inl rfl)
  | wake sequence =>
    simp only [WakeLatency.producerNext, hpc] at hstep
    cases hstep
    exact h.wake
  | exitStop =>
    simp only [WakeLatency.producerNext, hpc] at hstep
    cases hstep
    exact { h.moveProducer (p := .exitGeneration) (by rw [hpc]; exact unset) with }
  | exitGeneration =>
    simp only [WakeLatency.producerNext, hpc] at hstep
    cases hstep
    exact h.generation rfl rfl (.inl rfl)
  | exitWake =>
    simp only [WakeLatency.producerNext, hpc] at hstep
    cases hstep
    exact h.wake
  | returned result =>
    simp only [WakeLatency.producerNext, hpc] at hstep
    cases hstep

end Wakeups

/-- A waiter that runs has been counted with the others, so that none of them fails to start. -/
theorem Startup.not_running (hs : Startup t)
    (h : t.victim.announced = false ∨ t.controller.launched = false) :
    t.waiter.running = false := by
  rw [Bool.eq_false_iff]
  intro hrunning
  have hlaunched := hs.waiterRunning hrunning
  obtain ⟨-, -, hvictim⟩ := hs.announced_of_counted (ControllerPc.counted_of_launched hlaunched)
  rcases h with h | h
  · rw [hvictim] at h
    cases h
  · rw [hlaunched] at h
    cases h

namespace Wakeups

/-- A step of the victim keeps every shutdown followed by a wake. -/
theorem victimNext (h : Wakeups config t) (hs : Startup t)
    (hstep : victimNext chance t = some t') : Wakeups config t' := by
  cases hpc : t.victim with
  | unspawned =>
    simp only [WakeLatency.victimNext, hpc] at hstep
    cases hstep
  | pinCurrent =>
    simp only [WakeLatency.victimNext, hpc] at hstep
    split at hstep
    · cases hstep
      exact { h with }
    · cases hstep
      exact { h with }
  | abortStartup error due =>
    simp only [WakeLatency.victimNext, hpc] at hstep
    cases hstep
    cases due with
    | storeStop => exact { h with }
    | storeGo => exact { h with }
    | addGeneration => exact h.generation rfl rfl (.inr (hs.not_running (.inl (by rw [hpc]; rfl))))
  | announceReady =>
    simp only [WakeLatency.victimNext, hpc] at hstep
    cases hstep
    exact { h with }
  | loadGo =>
    simp only [WakeLatency.victimNext, hpc] at hstep
    cases hstep
    exact { h with }
  | loadStop chunks =>
    simp only [WakeLatency.victimNext, hpc] at hstep
    cases hstep
    exact { h with }
  | returned result =>
    simp only [WakeLatency.victimNext, hpc] at hstep
    cases hstep

/-- A step of the controller keeps every shutdown followed by a wake. -/
theorem driveTrialNext (h : Wakeups config t) (hs : Startup t)
    (hstep : driveTrialNext chance t = some t') : Wakeups config t' := by
  cases hpc : t.controller with
  | receiveHandle =>
    simp only [WakeLatency.driveTrialNext, hpc] at hstep
    split at hstep
    · cases hstep
      exact { h with }
    · split at hstep
      · cases hstep
        exact { h with }
      · cases hstep
  | spawnProducer =>
    simp only [WakeLatency.driveTrialNext, hpc] at hstep
    cases hstep
    have hproducer := hs.noProducer (by rw [hpc]; rfl)
    exact { h.moveProducer (p := .pinCurrent) (by rw [hproducer]; exact unset) with }
  | spawnVictim =>
    simp only [WakeLatency.driveTrialNext, hpc] at hstep
    cases hstep
    exact { h with }
  | loadReady =>
    simp only [WakeLatency.driveTrialNext, hpc] at hstep
    cases hstep
    exact { h with }
  | loadStop =>
    simp only [WakeLatency.driveTrialNext, hpc] at hstep
    cases hstep
    exact { h with }
  | checkTimeout =>
    simp only [WakeLatency.driveTrialNext, hpc] at hstep
    cases hstep
    exact { h with }
  | storeGoFailed =>
    simp only [WakeLatency.driveTrialNext, hpc] at hstep
    cases hstep
    exact { h with }
  | abortStartup due =>
    simp only [WakeLatency.driveTrialNext, hpc] at hstep
    cases hstep
    cases due with
    | storeStop => exact { h with }
    | storeGo => exact { h with }
    | addGeneration => exact h.generation rfl rfl (.inr (hs.not_running (.inr (by rw [hpc]; rfl))))
  | storeGo =>
    simp only [WakeLatency.driveTrialNext, hpc] at hstep
    cases hstep
    exact { h with }
  | preciseDelay =>
    simp only [WakeLatency.driveTrialNext, hpc] at hstep
    cases hstep
    exact { h with }
  | storeStop =>
    simp only [WakeLatency.driveTrialNext, hpc] at hstep
    cases hstep
    exact { h with }
  | returned result =>
    simp only [WakeLatency.driveTrialNext, hpc] at hstep
    cases hstep

end Wakeups

theorem wakeups_reach (h : TrialReach config (.new config) t) : Wakeups config t := by
  induction h with
  | refl => exact wakeups_new config
  | tail hreach hstep ih =>
    have hs := startup_reach hreach
    obtain ⟨chance, thread, hstep⟩ := hstep
    cases thread with
    | waiter => exact ih.waiterNext hstep
    | producer => exact ih.producerNext hstep
    | victim => exact ih.victimNext hs hstep
    | controller => exact ih.driveTrialNext hs hstep

theorem abortStartup_stop (due : AbortPc) (h : t.shared.stop = true) :
    (t.abortStartup due).shared.stop = true := by
  cases due with
  | storeStop => rfl
  | storeGo => exact h
  | addGeneration => exact h

theorem abortStartup_waiter (due : AbortPc) : (t.abortStartup due).waiter = t.waiter := by
  cases due <;> rfl

/-- A stopped trial stays stopped. -/
theorem trialStep_stop (h : t.shared.stop = true) (hstep : TrialStep config t t') :
    t'.shared.stop = true := by
  obtain ⟨chance, thread, hstep⟩ := hstep
  cases thread with
  | waiter =>
    change waiterNext config chance t = some t' at hstep
    unfold waiterNext at hstep
    repeat' split at hstep
    all_goals cases hstep
    all_goals first | exact h | exact abortStartup_stop _ h | rfl
  | producer =>
    change producerNext config chance t = some t' at hstep
    unfold producerNext at hstep
    repeat' split at hstep
    all_goals cases hstep
    all_goals first | exact h | exact abortStartup_stop _ h | rfl
  | victim =>
    change victimNext chance t = some t' at hstep
    unfold victimNext at hstep
    repeat' split at hstep
    all_goals cases hstep
    all_goals first | exact h | exact abortStartup_stop _ h
  | controller =>
    change driveTrialNext chance t = some t' at hstep
    unfold driveTrialNext at hstep
    repeat' split at hstep
    all_goals cases hstep
    all_goals first | exact h | exact abortStartup_stop _ h | rfl

/-- The other threads leave the waiter where it is. -/
theorem trialNext_waiter {thread : TrialThread} (hthread : thread ≠ .waiter)
    (hstep : trialNext config chance t thread = some t') : t'.waiter = t.waiter := by
  cases thread with
  | waiter => exact absurd rfl hthread
  | producer =>
    change producerNext config chance t = some t' at hstep
    unfold producerNext at hstep
    repeat' split at hstep
    all_goals cases hstep
    all_goals first | rfl | exact abortStartup_waiter _
  | victim =>
    change victimNext chance t = some t' at hstep
    unfold victimNext at hstep
    repeat' split at hstep
    all_goals cases hstep
    all_goals first | rfl | exact abortStartup_waiter _
  | controller =>
    change driveTrialNext chance t = some t' at hstep
    unfold driveTrialNext at hstep
    repeat' split at hstep
    all_goals cases hstep
    all_goals first | rfl | exact abortStartup_waiter _

/-- A waiter that has not started when the trial is stopped does not start any more. -/
theorem waiterNext_turned (hstop : t.shared.stop = true) (hwaiter : t.waiter.running = false)
    (hstep : waiterNext config chance t = some t') : t'.waiter.running = false := by
  unfold waiterNext at hstep
  cases hpc : t.waiter with
  | pinCurrent =>
    rw [hpc] at hstep
    cases hfailure : chance.failure with
    | none =>
      simp only [hfailure] at hstep
      cases hstep
      dsimp only
      split <;> rfl
    | some error =>
      simp only [hfailure] at hstep
      cases hstep
      rfl
  | abortStartup error due =>
    rw [hpc] at hstep
    cases hstep
    cases due <;> rfl
  | sendHandle =>
    rw [hpc] at hstep
    cases hfailure : chance.failure <;> simp only [hfailure] at hstep <;> cases hstep <;> rfl
  | captureGeneration =>
    rw [hpc] at hstep
    cases hstep
    rfl
  | announceReady observed =>
    rw [hpc] at hstep
    cases hstep
    rfl
  | loadGo observed =>
    rw [hpc] at hstep
    cases hstep
    dsimp only
    split <;> rfl
  | loadStopAtStart observed =>
    rw [hpc] at hstep
    cases hstep
    simp only [hstop, if_true]
    rfl
  | returned result =>
    rw [hpc] at hstep
    cases hstep
  | _ =>
    rw [hpc] at hwaiter
    cases hwaiter

/-- A waiter that has left a stopped trial does not come back. -/
theorem turned_reach (h : TrialReach config t t') (hstop : t.shared.stop = true)
    (hwaiter : t.waiter.running = false) :
    t'.shared.stop = true ∧ t'.waiter.running = false := by
  induction h with
  | refl => exact ⟨hstop, hwaiter⟩
  | tail _ hstep ih =>
    refine ⟨trialStep_stop ih.1 hstep, ?_⟩
    obtain ⟨chance, thread, hstep⟩ := hstep
    by_cases hthread : thread = .waiter
    · subst hthread
      exact waiterNext_turned ih.1 ih.2 hstep
    · rw [trialNext_waiter hthread hstep]
      exact ih.2

/-- The last increment replaces the generation that the waiter has seen. -/
theorem Publications.generation_ne {acked : ℕ} (h : Publications t acked) (hs : Startup t)
    (hwaiter : t.waiter.running = true) (hpending : t.waiter.pending = 0)
    (hproducer : t.producer.increments = 1) :
    t.shared.generation ≠ t.locals.recorded.length % 2 ^ 64 := by
  have hlaunched := hs.waiterRunning hwaiter
  obtain ⟨hannounced, -, hvictim⟩ :=
    hs.announced_of_counted (ControllerPc.counted_of_launched hlaunched)
  have hlength := h.increments
  rw [hproducer, WaiterPc.increments_of_announced hannounced,
    VictimPc.increments_of_announced hvictim, ControllerPc.increments_of_launched hlaunched]
    at hlength
  have hgeneration := h.generation
  have hrecorded := h.recorded_eq hpending
  have hle := h.recorded_le
  have hpublished := h.published_le
  omega

/-- Once the producer has returned, the trial is stopped and the waiter can always go on by itself;
and where the trial is stopped before the waiter has passed the barrier, it never waits, since it
returns an error after the barrier. -/
theorem nobody_left_waiting (config : TrialConfig) {t : Trial}
    (h : TrialReach config (.new config) t) :
    (∀ result, t.producer = .returned result → t.shared.stop = true ∧ ¬ t.WaiterBlocked) ∧
    (t.shutdowns ≠ [] → t.shared.stop = true) ∧
    (t.shared.stop = true → t.waiter.running = false → ∀ t', TrialReach config t t' →
      t'.waiter.running = false ∧ ∀ chance observed, t'.waiter = .loadStopAtStart observed →
        waiterNext config chance t' = some { t' with waiter := .returned (.error .aborted) }) := by
  have hs := startup_reach h
  obtain ⟨acked, hp⟩ := publications_reach h
  have hw := wakeups_reach h
  refine ⟨?_, hs.shutdowns, ?_⟩
  · intro result hproducer
    refine ⟨hs.producerStopped (by rw [hproducer]; rfl), ?_⟩
    have hincrements : t.producer.increments = 1 := by rw [hproducer]; rfl
    intro hblocked
    unfold Trial.WaiterBlocked at hblocked
    cases hpc : t.waiter with
    | loadGo observed =>
      rw [hpc] at hblocked
      have hgo : t.shared.go = true := hs.producerReleased (by rw [hproducer]; rfl)
      have hunset : t.shared.go = false := hblocked
      rw [hgo] at hunset
      cases hunset
    | waitDirect observed unclassified =>
      have hne := hp.generation_ne hs (by rw [hpc]; rfl) (by rw [hpc]; rfl) hincrements
      have hfits := hp.waiter
      rw [hpc] at hblocked hfits
      have hobserved : observed = t.locals.recorded.length % 2 ^ 64 := hfits
      have hsame : t.shared.generation = observed := hblocked
      exact hne (hsame.trans hobserved)
    | park observed unclassified =>
      have hne := hp.generation_ne hs (by rw [hpc]; rfl) (by rw [hpc]; rfl) hincrements
      have hfits := hp.waiter
      rw [hpc] at hblocked hfits
      have hobserved : observed = t.locals.recorded.length % 2 ^ 64 := hfits
      rw [← hobserved] at hne
      -- the wake of the producer cannot have been taken before the generation changed
      have htoken : t.token ≠ notifiedToken := hblocked
      have hwaking := (hw.parked observed unclassified hpc hne).resolve_left htoken
      rw [hproducer] at hwaking
      cases hwaking
    | _ =>
      rw [hpc] at hblocked
      exact hblocked
  · intro hstop hwaiter t' hreach
    obtain ⟨hstop', hwaiter'⟩ := turned_reach hreach hstop hwaiter
    refine ⟨hwaiter', ?_⟩
    intro chance observed hpc
    simp only [waiterNext, hpc, hstop', if_true]

/-- The waiter is about to announce itself when the victim fails to start. -/
def abortedSchedule : List (TrialThread × Chance) :=
  steps 2 .controller 0 false ++ steps 2 .waiter 0 false ++
  (.victim, ⟨some "pin", ⟨0, 0⟩, false⟩) :: steps 3 .victim 0 false

def abortedTrial : Trial :=
  ((Trial.new sampleConfig).run sampleConfig abortedSchedule).getD (.new sampleConfig)

theorem abortedTrial_reach : TrialReach sampleConfig (.new sampleConfig) abortedTrial :=
  trialReach_of_run abortedSchedule (by decide +kernel)

def rejectedTrial : Trial :=
  (abortedTrial.run sampleConfig (steps 3 .waiter 0 false)).getD abortedTrial

theorem rejectedTrial_reach : TrialReach sampleConfig abortedTrial rejectedTrial :=
  trialReach_of_run (steps 3 .waiter 0 false) (by decide +kernel)

theorem nobody_left_waiting_sample :
    (sampleTrial.producer = .returned (.ok ()) ∧ ¬ sampleTrial.WaiterBlocked) ∧
    rejectedTrial.waiter = .returned (.error .aborted) ∧ rejectedTrial.waiter.running = false :=
  ⟨⟨by decide +kernel, ((nobody_left_waiting sampleConfig sampleTrial_reach).1 (.ok ())
      (by decide +kernel)).2⟩,
    by decide +kernel,
    ((nobody_left_waiting sampleConfig abortedTrial_reach).2.2 (by decide +kernel)
      (by decide +kernel) rejectedTrial rejectedTrial_reach).1⟩

end Snoozer.WakeLatency
