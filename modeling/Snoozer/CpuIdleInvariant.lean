import Snoozer.CpuIdleInventory

/-! The invariant of the host across crashes: at most one journal is unfinished, and
it accounts for every value that differs from the start. -/
namespace Snoozer.Benchctl
open Interactive Fallible

variable (codec : Codec) (host : Host) (root : PathBuf) (base : Sysfs)

/-- The entries are an inventory of the host as it was before any operation. -/
def Inventoried (es : List IdleEntry) : Prop :=
  ∃ cpus : List ℕ, cpus.Pairwise (· < ·) ∧
    Yields (host.look (.initial base)) (inventory root cpus) es

structure JournalSound (operationId : String) (j : Journal) : Prop where
  sameId : j.operationId = operationId
  validId : validOperationId operationId = true
  valid : j.validate codec = .ok ()
  boot : j.bootId = trim host.bootId
  inventoried : Inventoried host root base j.entries

structure HostInv (s : HostState) : Prop where
  finite : s.FinitelyMany
  sound : ∀ id j, s.journals id = some j → JournalSound codec host root base id j
  unique : ∀ id id' j j', s.journals id = some j → s.journals id' = some j' →
    j.stage ≠ .restored → j'.stage ≠ .restored → id = id'
  clean : (∀ id j, s.journals id = some j → j.stage = .restored) →
    ∀ p, value s.sysfs p = value base p
  accounted : ∀ id j, s.journals id = some j → j.stage ≠ .restored → ∀ p,
    value s.sysfs p = value base p ∨
      ∃ e ∈ j.entries, e.disablePath = p ∧ value s.sysfs p = some e.desired
  before : ∀ id b, s.before id = some b → ∀ p, value b p = value base p
  began : ∀ id, (s.journals id).isSome → (s.before id).isSome

/-- An invocation works on an unfinished operation with `j` in memory. -/
structure Owns (operationId : String) (j : Journal) (s : HostState) : Prop where
  sound : JournalSound codec host root base operationId j
  disk : ∃ d, s.journals operationId = some d ∧ d.stage ≠ .restored ∧ d.entries = j.entries

variable {codec host root base} {s : HostState} {id : String} {j : Journal}

namespace JournalSound

theorem push (h : JournalSound codec host root base id j) (stage : Stage) (actor : Actor)
    (millis : ℕ) : JournalSound codec host root base id (j.push stage actor millis) :=
  ⟨h.sameId, h.validId, Journal.validate_push h.valid .., h.boot, h.inventoried⟩

theorem setOutcome (h : JournalSound codec host root base id j) (o : Option TerminalOutcome) :
    JournalSound codec host root base id { j with outcome := o } :=
  ⟨h.sameId, h.validId, h.valid, h.boot, h.inventoried⟩

end JournalSound

namespace Owns

theorem push (h : Owns codec host root base id j s) (stage : Stage) (actor : Actor) (millis : ℕ) :
    Owns codec host root base id (j.push stage actor millis) s :=
  ⟨h.sound.push stage actor millis, h.disk⟩

theorem setOutcome (h : Owns codec host root base id j s) (o : Option TerminalOutcome) :
    Owns codec host root base id { j with outcome := o } s :=
  ⟨h.sound.setOutcome o, h.disk⟩

theorem of_disk (hI : HostInv codec host root base s) (hj : s.journals id = some j)
    (hstage : j.stage ≠ .restored) : Owns codec host root base id j s :=
  ⟨hI.sound id j hj, j, hj, hstage, rfl⟩

theorem congr_journals {s' : HostState} (h : Owns codec host root base id j s)
    (hs : s'.journals = s.journals) : Owns codec host root base id j s' :=
  ⟨h.sound, hs ▸ h.disk⟩

end Owns

theorem join_inj {dir dir' : PathBuf} {name name' : String} (h : dir.join name = dir'.join name') :
    dir = dir' ∧ name = name' := by
  obtain ⟨absolute, components⟩ := dir
  obtain ⟨absolute', components'⟩ := dir'
  simp only [PathBuf.join, PathBuf.mk.injEq] at h
  obtain ⟨rfl, hcomponents⟩ := h
  have := List.append_inj' hcomponents rfl
  simp_all

namespace Inventoried

variable {es : List IdleEntry}

theorem reported (h : Inventoried host root base es) {e : IdleEntry} (he : e ∈ es) :
    Reported (.initial base) e := by
  obtain ⟨cpus, _, hyields⟩ := h
  exact (inventory_reported hyields e he).2

theorem original (h : Inventoried host root base es) {e : IdleEntry} (he : e ∈ es) :
    value base e.disablePath = some e.original :=
  (h.reported he).current

/-- Two entries for one path ask for the same value. -/
theorem desired_eq (h : Inventoried host root base es) {e e' : IdleEntry} (he : e ∈ es)
    (he' : e' ∈ es) (hpath : e'.disablePath = e.disablePath) : e'.desired = e.desired := by
  obtain ⟨dir, hdir, hname⟩ := (h.reported he).files
  obtain ⟨dir', hdir', hname'⟩ := (h.reported he').files
  rw [hdir, hdir'] at hpath
  rw [(join_inj hpath).1, hname, Option.some.injEq] at hname'
  rw [(h.reported he).desired, (h.reported he').desired, hname']

end Inventoried

/-- Every listed path has its original value or the one the policy asks for. -/
theorem Owns.current (hI : HostInv codec host root base s) (h : Owns codec host root base id j s)
    {e : IdleEntry} (he : e ∈ j.entries) :
    value s.sysfs e.disablePath = some e.original ∨
      value s.sysfs e.disablePath = some e.desired := by
  obtain ⟨d, hd, hstage, hentries⟩ := h.disk
  rcases hI.accounted id d hd hstage e.disablePath with hval | ⟨e', he', hpath, hval⟩
  · exact Or.inl (hval.trans (h.sound.inventoried.original he))
  · rw [hentries] at he'
    exact Or.inr (hval.trans (congrArg some (h.sound.inventoried.desired_eq he he' hpath)))

theorem Owns.isBit (h : Owns codec host root base id j s) {e : IdleEntry} (he : e ∈ j.entries) :
    IsBit e.original ∧ IsBit e.desired := by
  have hrep := h.sound.inventoried.reported he
  refine ⟨hrep.bit, ?_⟩
  rw [hrep.desired]
  exact isBit_desiredValue _

theorem Owns.readable (hI : HostInv codec host root base s) (h : Owns codec host root base id j s)
    {e : IdleEntry} (he : e ∈ j.entries) :
    ∃ v, value s.sysfs e.disablePath = some v ∧ IsBit v := by
  rcases h.current hI he with hval | hval
  · exact ⟨_, hval, (h.isBit he).1⟩
  · exact ⟨_, hval, (h.isBit he).2⟩

theorem Owns.rewritten (hI : HostInv codec host root base s)
    (h : Owns codec host root base id j s) : Rewritten (.initial base) s j.entries := by
  refine ⟨fun dir => ?_, fun e he => h.readable hI he⟩
  obtain ⟨d, hd, hstage, hentries⟩ := h.disk
  rcases hI.accounted id d hd hstage (dir.join "name") with hval | ⟨e, he, hpath, _⟩
  · exact hval
  · rw [hentries] at he
    obtain ⟨dir', hdir', _⟩ := (h.sound.inventoried.reported he).files
    rw [hdir'] at hpath
    exact absurd (join_inj hpath).2 (by decide)

/-- A host on which nothing has been run satisfies the invariant. -/
theorem hostInv_initial (contents : Sysfs) :
    HostInv codec host root contents (.initial contents) where
  finite := ⟨[], List.nodup_nil, fun _ => by simp [HostState.initial]⟩
  sound _ _ h := nomatch h
  unique _ _ _ _ h := nomatch h
  clean _ _ := rfl
  accounted _ _ h := nomatch h
  before _ _ h := nomatch h
  began _ h := nomatch h

/-- A journal may be stored if it is the only unfinished one or finished, and if it
accounts for what sysfs holds. -/
theorem HostInv.store (hI : HostInv codec host root base s)
    (hsound : JournalSound codec host root base id j)
    (hbegin : s.before id = none → ∀ p, value s.sysfs p = value base p)
    (hothers : ∀ id' j', id' ≠ id → s.journals id' = some j' → j'.stage = .restored)
    (haccounted : ∀ p, value s.sysfs p = value base p ∨ j.stage ≠ .restored ∧
      ∃ e ∈ j.entries, e.disablePath = p ∧ value s.sysfs p = some e.desired) :
    HostInv codec host root base (s.store id j) := by
  have hcases : ∀ id' j', (s.store id j).journals id' = some j' →
      (id' = id ∧ j' = j) ∨ (id' ≠ id ∧ s.journals id' = some j') := by
    intro id' j' hj'
    by_cases hid : id' = id
    · subst hid
      rw [HostState.store_self, Option.some.injEq] at hj'
      exact Or.inl ⟨rfl, hj'.symm⟩
    · rw [HostState.store_of_ne s hid] at hj'
      exact Or.inr ⟨hid, hj'⟩
  constructor
  case finite => exact hI.finite.store id j
  case sound =>
    intro id' j' hj'
    rcases hcases id' j' hj' with ⟨rfl, rfl⟩ | ⟨_, hj'⟩
    · exact hsound
    · exact hI.sound id' j' hj'
  case unique =>
    have honly : ∀ id' j', (s.store id j).journals id' = some j' → j'.stage ≠ .restored →
        id' = id := by
      intro id' j' hj' hstage
      rcases hcases id' j' hj' with ⟨rfl, _⟩ | ⟨hne, hj'⟩
      · rfl
      · exact absurd (hothers id' j' hne hj') hstage
    intro id₁ id₂ j₁ j₂ h₁ h₂ hs₁ hs₂
    rw [honly id₁ j₁ h₁ hs₁, honly id₂ j₂ h₂ hs₂]
  case clean =>
    intro hall p
    rcases haccounted p with hval | ⟨hstage, _⟩
    · exact hval
    · exact absurd (hall id j (HostState.store_self ..)) hstage
  case accounted =>
    intro id' j' hj' hstage p
    rcases hcases id' j' hj' with ⟨rfl, rfl⟩ | ⟨hne, hj'⟩
    · exact (haccounted p).imp_right And.right
    · exact absurd (hothers id' j' hne hj') hstage
  case before =>
    intro id' b hb p
    by_cases hid : id' = id
    · subst hid
      rw [HostState.store_before_self, Option.some.injEq] at hb
      subst hb
      cases hbefore : s.before id' with
      | none => exact hbegin hbefore p
      | some b => exact hI.before id' b hbefore p
    · rw [HostState.store_before_of_ne s hid] at hb
      exact hI.before id' b hb p
  case began =>
    intro id' h
    by_cases hid : id' = id
    · subst hid
      simp
    · rw [HostState.store_of_ne s hid] at h
      rw [HostState.store_before_of_ne s hid]
      exact hI.began id' h

/-- The journal of a new operation. -/
theorem hostInv_create (hI : HostInv codec host root base s)
    (hdone : ∀ id j, s.journals id = some j → j.stage = .restored)
    (hsound : JournalSound codec host root base id j) (hstage : j.stage ≠ .restored) :
    HostInv codec host root base (s.store id j) ∧
      Owns codec host root base id j (s.store id j) := by
  constructor
  · exact hI.store hsound (fun _ => hI.clean hdone) (fun id' j' _ => hdone id' j')
      fun p => Or.inl (hI.clean hdone p)
  · exact ⟨hsound, j, HostState.store_self .., hstage, rfl⟩

namespace Owns

theorem others (hI : HostInv codec host root base s) (h : Owns codec host root base id j s)
    {id' : String} {j' : Journal} (hne : id' ≠ id) (hj' : s.journals id' = some j') :
    j'.stage = .restored := by
  obtain ⟨d, hd, hstage, _⟩ := h.disk
  by_contra hrest
  exact hne (hI.unique id' id j' d hj' hd hrest hstage)

/-- Storing the journal of the running operation keeps the invariant when the tree accounts for it.
-/
theorem hostInv_store (hI : HostInv codec host root base s) (h : Owns codec host root base id j s)
    (haccounted : ∀ p, value s.sysfs p = value base p ∨ j.stage ≠ .restored) :
    HostInv codec host root base (s.store id j) := by
  obtain ⟨d, hd, hstage, hentries⟩ := h.disk
  refine hI.store h.sound ?_ (fun id' j' hne hj' => h.others hI hne hj') fun p => ?_
  · intro hnone
    have hbegan := hI.began id (Option.isSome_iff_exists.mpr ⟨d, hd⟩)
    rw [hnone] at hbegan
    exact nomatch hbegan
  · rcases haccounted p with hval | hunfinished
    · exact Or.inl hval
    · refine (hI.accounted id d hd hstage p).imp_right fun hp => ⟨hunfinished, ?_⟩
      exact hentries ▸ hp

/-- Record progress of the operation. -/
theorem progress (hI : HostInv codec host root base s) (h : Owns codec host root base id j s)
    (hstage : j.stage ≠ .restored) :
    HostInv codec host root base (s.store id j) ∧
      Owns codec host root base id j (s.store id j) :=
  ⟨h.hostInv_store hI fun _ => Or.inr hstage,
    h.sound, j, HostState.store_self .., hstage, rfl⟩

/-- With every entry back at its original value the host is as it was. -/
theorem values_eq (hI : HostInv codec host root base s) (h : Owns codec host root base id j s)
    (hback : ∀ e ∈ j.entries, value s.sysfs e.disablePath = some e.original) (p : PathBuf) :
    value s.sysfs p = value base p := by
  obtain ⟨d, hd, hstage, hentries⟩ := h.disk
  rcases hI.accounted id d hd hstage p with hval | ⟨e, he, rfl, _⟩
  · exact hval
  · rw [hentries] at he
    rw [hback e he, h.sound.inventoried.original he]

/-- Write one of the two values that the journal accounts for. -/
theorem hostInv_write (hI : HostInv codec host root base s) (h : Owns codec host root base id j s)
    {e : IdleEntry} (he : e ∈ j.entries) {contents : String}
    (hc : trim contents = e.original ∨ trim contents = e.desired) :
    HostInv codec host root base (s.setSysfs e.disablePath (some contents)) := by
  obtain ⟨d, hd, hstage, hentries⟩ := h.disk
  refine { hI with clean := ?_, accounted := ?_ }
  · intro hall
    exact absurd (hall id d hd) hstage
  · intro id' j' hj' hstage' p
    by_cases hp : p = e.disablePath
    · subst hp
      have hval : value (s.setSysfs e.disablePath (some contents)).sysfs e.disablePath =
          some (trim contents) := by simp [value]
      rw [hval]
      rcases hc with hc | hc
      · exact Or.inl (by rw [hc, h.sound.inventoried.original he])
      · have hid := hI.unique id' id j' d hj' hd hstage' hstage
        subst hid
        rw [HostState.setSysfs_journals, hd, Option.some.injEq] at hj'
        subst hj'
        exact Or.inr ⟨e, hentries ▸ he, rfl, congrArg some hc⟩
    · have hval : value (s.setSysfs e.disablePath (some contents)).sysfs p = value s.sysfs p := by
        rw [value, HostState.setSysfs_of_ne s hp, value]
      rw [hval]
      exact hI.accounted id' j' hj' hstage' p

end Owns

/-- Entering the supervisor touches neither the journals nor the tree. -/
theorem HostInv.enter (hI : HostInv codec host root base s) (id : String) :
    HostInv codec host root base (s.enter id) :=
  { hI with }

theorem Owns.enter (h : Owns codec host root base id j s) (entered : String) :
    Owns codec host root base id j (s.enter entered) :=
  h.congr_journals rfl

end Snoozer.Benchctl
