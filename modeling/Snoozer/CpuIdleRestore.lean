import Snoozer.CpuIdleInvariant

/-! `apply` and `restore` keep the invariant of the host at every point, and without
I/O errors an operation that owns its journal is always restored. -/
namespace Snoozer.Benchctl
open Interactive Fallible

variable {codec : Codec} {host : Host} {root : PathBuf} {base : Sysfs} {faults : Bool}
  {α : Type} {id : String} {j : Journal} {I P : HostState → Prop} {A : α → HostState → Prop}
  {B : BenchError → HostState → Prop}

theorem triple_looks {p : Bench α} (hp : Looks host faults p) :
    Triple (host.machine faults false) I P p (fun a s => P s ∧ Yields (host.look s) p a)
      (fun _ s => P s ∧ (faults = true ∨ ∀ a, ¬ Yields (host.look s) p a)) := by
  refine triple_of_state fun s₀ _ hP => (hp I s₀).conseq (fun _ _ h => h) ?_ ?_
  · rintro a s _ ⟨rfl, hy⟩
    exact ⟨hP, hy⟩
  · rintro e s _ ⟨rfl, hno⟩
    exact ⟨hP, hno⟩

/-- A call that changes nothing, whatever it answers. -/
theorem triple_inert {op : HostOp} {f : HostAns op → Bench α}
    (hop : ∀ s x s', host.act faults op s x s' → s' = s)
    (hf : ∀ x, Triple (host.machine faults false) I P (f x) A B) :
    Triple (host.machine faults false) I P (ask op >>= f) A B := by
  refine (host.closed faults).triple_bind (A := fun _ => P) ((host.closed faults).triple_ask ?_) hf
  intro s x s' hI hP hact
  rw [hop s x s' hact]
  exact ⟨hI, hP⟩

theorem triple_ofExcept {r : Except BenchError α} (hok : ∀ a, r = .ok a → ∀ s, I s → P s → A a s)
    (herr : ∀ e, r = .error e → ∀ s, I s → P s → B e s) :
    Triple (host.machine faults false) I P (ofExcept r) A B := by
  cases r with
  | ok a => exact (host.closed faults).triple_pure (hok a rfl)
  | error e => exact (host.closed faults).triple_throw (herr e rfl)

theorem triple_transitioned (stage : Stage) (a : Actor) :
    Triple (host.machine faults false) I P (j.transition stage a)
      (fun j' s => (∃ millis, j' = j.push stage a millis) ∧ P s) B :=
  triple_inert (fun _ _ _ h => h) fun millis =>
    (host.closed faults).triple_pure fun _ _ hP => ⟨⟨millis, rfl⟩, hP⟩

theorem triple_transition {f : Journal → Bench α} (stage : Stage) (a : Actor)
    (hf : ∀ millis, Triple (host.machine faults false) I P (f (j.push stage a millis)) A B) :
    Triple (host.machine faults false) I P (j.transition stage a >>= f) A B :=
  (host.closed faults).triple_bind (triple_transitioned stage a)
    fun _ => triple_of_pure fun ⟨millis, hj'⟩ => hj' ▸ hf millis

/-- A transition recorded by whoever runs now. -/
theorem triple_actorTransition {f : Journal → Bench α} (stage : Stage)
    (hf : ∀ a millis, Triple (host.machine faults false) I P (f (j.push stage a millis)) A B) :
    Triple (host.machine faults false) I P (do f (← j.transition stage (← actor))) A B :=
  triple_inert (fun _ _ _ h => h.2) fun a => triple_transition stage a (hf a)

/-- A valid journal is stored as a whole, or nothing has been stored for sure. -/
theorem triple_storeJournal {Q : HostState → Prop} (hvalid : j.validate codec = .ok ())
    (hstore : ∀ s, I s → P s → I (s.store id j) ∧ Q (s.store id j)) :
    Triple (host.machine faults false) I P (storeJournal codec id j) (fun _ => Q)
      (fun _ _ => faults = true) := by
  have hM := host.closed faults
  unfold storeJournal
  rw [hvalid]
  refine hM.triple_bind (A := fun _ => P) (hM.triple_pure fun _ _ hP => hP) fun _ => ?_
  refine hM.triple_bind (A := fun x s => match x with
    | .ok _ => Q s
    | .error _ => faults = true) (hM.triple_ask ?_) fun x => ?_
  · intro s x s' hI hP hact
    obtain ⟨hI', hQ⟩ := hstore s hI hP
    cases x with
    | ok u =>
      cases (hact : s' = s.store id j)
      exact ⟨hI', hQ⟩
    | error e =>
      obtain ⟨hfaults, rfl | rfl⟩ := (hact : faults = true ∧ (s' = s ∨ s' = s.store id j))
      · exact ⟨hI, hfaults⟩
      · exact ⟨hI', hfaults⟩
  · refine triple_ofExcept ?_ ?_
    · rintro u rfl s _ hQ
      exact hQ
    · rintro e rfl s _ hfaults
      exact hfaults

theorem trim_newline {v : String} (h : IsBit v) : trim (v ++ "\n") = v := by
  rcases h with rfl | rfl <;> decide

/-- Read a path whose value is known up to `W`. -/
theorem triple_readBit {path : PathBuf} {W : String → HostState → Prop} {f : String → Bench α}
    (hval : ∀ s, I s → P s → ∃ v, value s.sysfs path = some v ∧ IsBit v ∧ W v s)
    (hfail : ∀ e s, I s → P s → faults = true → B e s)
    (hf : ∀ v, Triple (host.machine faults false) I (fun s => P s ∧ W v s) (f v) A B) :
    Triple (host.machine faults false) I P (readBit path >>= f) A B := by
  refine (host.closed faults).triple_bind (A := fun v s => P s ∧ W v s) ?_ hf
  refine (triple_looks (looks_readBit path)).conseq (fun _ _ h => h) ?_ ?_
  · rintro v s hI ⟨hP, hy⟩
    obtain ⟨w, hw, _, hW⟩ := hval s hI hP
    rw [(yields_readBit.mp hy).1, Option.some.injEq] at hw
    exact ⟨hP, hw ▸ hW⟩
  · rintro e s hI ⟨hP, hfaults | hno⟩
    · exact hfail e s hI hP hfaults
    · obtain ⟨w, hw, hbit, _⟩ := hval s hI hP
      exact absurd (yields_readBit.mpr ⟨hw, hbit⟩) (hno w)

/-- Write a bit from a known state. -/
theorem triple_writeValue {path : PathBuf} {v : String} (hbit : IsBit v) {s₀ : HostState}
    (hI : I (s₀.setSysfs path (some (v ++ "\n")))) :
    Triple (host.machine faults false) I (· = s₀) (writeBit path v)
      (fun _ s => s = s₀.setSysfs path (some (v ++ "\n")))
      (fun _ s => (s = s₀ ∨ s = s₀.setSysfs path (some (v ++ "\n"))) ∧ faults = true) := by
  have hM := host.closed faults
  -- The one state that the write can lead to.
  obtain ⟨t, ht⟩ : ∃ t, t = s₀.setSysfs path (some (v ++ "\n")) := ⟨_, rfl⟩
  rw [← ht] at hI ⊢
  have hval : value t.sysfs path = some v := by
    rw [ht, value, HostState.setSysfs_self, Option.map_some, trim_newline hbit]
  refine hM.triple_bind (A := Ends (fun _ s => s = t) fun _ s => (s = s₀ ∨ s = t) ∧ faults = true)
    (hM.triple_ask ?_) fun x => ?_
  · rintro s x s' hs rfl hact
    cases x with
    | ok u =>
      cases (hact : s' = s.setSysfs path (some (v ++ "\n")))
      exact ⟨ht ▸ hI, ht.symm⟩
    | error err =>
      obtain ⟨hfaults, hs'⟩ := hact
      rcases hs' with rfl | rfl
      · exact ⟨hs, Or.inl rfl, hfaults⟩
      · exact ⟨ht ▸ hI, Or.inr ht.symm, hfaults⟩
  · cases x with
    | error err => exact hM.triple_bind (hM.triple_throw fun _ _ h => h) fun _ _ _ h => h
    | ok u =>
      refine hM.triple_bind (A := fun _ s => s = t) (hM.triple_pure fun _ _ h => h) fun _ => ?_
      refine triple_readBit (W := fun w _ => w = v) ?_ ?_ fun w => ?_
      · rintro s _ rfl
        exact ⟨v, hval, hbit, rfl⟩
      · rintro err s _ rfl hfaults
        exact ⟨Or.inr rfl, hfaults⟩
      · refine triple_of_state fun s _ hs => ?_
        obtain ⟨rfl, rfl⟩ := hs
        rw [if_neg (not_not.mpr rfl)]
        exact hM.triple_pure fun _ _ h => h

/-- Write one of an entry's two values. -/
theorem triple_writeBit {e : IdleEntry} (he : e ∈ j.entries) {v : String}
    (hv : v = e.original ∨ v = e.desired) :
    Triple (host.machine faults false) (HostInv codec host root base)
      (Owns codec host root base id j) (writeBit e.disablePath v)
      (fun _ => Owns codec host root base id j) (fun _ => Owns codec host root base id j) := by
  refine triple_of_state fun s₀ hI hown => ?_
  have hbit : IsBit v := by
    rcases hv with rfl | rfl
    · exact (hown.isBit he).1
    · exact (hown.isBit he).2
  have hIt : HostInv codec host root base (s₀.setSysfs e.disablePath (some (v ++ "\n"))) :=
    hown.hostInv_write hI he (by rwa [trim_newline hbit])
  have hownt : Owns codec host root base id j
      (s₀.setSysfs e.disablePath (some (v ++ "\n"))) := hown.congr_journals rfl
  refine (triple_writeValue hbit hIt).conseq (fun _ _ h => h) ?_ ?_
  · rintro _ s _ rfl
    exact hownt
  · rintro err s _ ⟨rfl | rfl, _⟩
    · exact hown
    · exact hownt

/-- The journalled inventory is the current one. -/
theorem triple_validateInventory :
    Triple (host.machine faults false) (HostInv codec host root base)
      (Owns codec host root base id j) (validateInventory root j.entries)
      (fun _ => Owns codec host root base id j)
      (fun _ s => Owns codec host root base id j s ∧ faults = true) := by
  refine (triple_looks (looks_validateInventory _ _)).conseq (fun _ _ h => h)
    (fun _ _ _ h => h.1) ?_
  rintro e s hI ⟨hown, hfaults | hno⟩
  · exact ⟨hown, hfaults⟩
  · obtain ⟨cpus, hcpus, hinv⟩ := hown.sound.inventoried
    exact absurd (validateInventory_reread hinv hcpus (hown.rewritten hI)) (hno ())

/-- The entry's path has its original value. -/
def AtOriginal (s : HostState) (e : IdleEntry) : Prop :=
  value s.sysfs e.disablePath = some e.original

/-- What the passes rely on: wherever `R` holds, every entry has one of its two values,
and `R` survives putting an original back. -/
structure Restorable (I R : HostState → Prop) (entries : List IdleEntry) : Prop where
  bits : ∀ e ∈ entries, IsBit e.original ∧ IsBit e.desired
  known : ∀ s, I s → R s → ∀ e ∈ entries,
    AtOriginal s e ∨ value s.sysfs e.disablePath = some e.desired
  agree : ∀ e ∈ entries, ∀ e' ∈ entries, e'.disablePath = e.disablePath → e'.original = e.original
  write : ∀ s, I s → R s → ∀ e ∈ entries,
    I (s.setSysfs e.disablePath (some (e.original ++ "\n"))) ∧
      R (s.setSysfs e.disablePath (some (e.original ++ "\n")))

section Passes

variable {R : HostState → Prop} {entries es done : List IdleEntry} (h : Restorable I R entries)

include h in
theorem Restorable.read {e : IdleEntry} (he : e ∈ entries) {s : HostState} (hI : I s) (hR : R s) :
    ∃ v, value s.sysfs e.disablePath = some v ∧ IsBit v ∧
      value s.sysfs e.disablePath = some v ∧ ¬ (v ≠ e.original ∧ v ≠ e.desired) := by
  rcases h.known s hI hR e he with hval | hval
  · exact ⟨_, hval, (h.bits e he).1, hval, fun h => h.1 rfl⟩
  · exact ⟨_, hval, (h.bits e he).2, hval, fun h => h.2 rfl⟩

include h in
theorem triple_restoreCheck (hes : es ⊆ entries) :
    Triple (host.machine faults false) I R (restoreCheck codec id j es) (fun _ => R)
      (fun _ _ => faults = true) := by
  induction es with
  | nil => exact (host.closed faults).triple_pure fun _ _ h => h
  | cons e rest ih =>
    obtain ⟨he, hrest⟩ := List.cons_subset.mp hes
    refine triple_readBit (fun s hI hR => h.read he hI hR) (fun _ _ _ _ h => h) fun v => ?_
    refine triple_of_state fun s _ hs => ?_
    rw [if_neg hs.2.2]
    exact (ih hrest).pre fun s' _ hs' => hs' ▸ hs.1

theorem AtOriginal.of_write {e : IdleEntry} (hbit : IsBit e.original) (s : HostState) :
    AtOriginal (s.setSysfs e.disablePath (some (e.original ++ "\n"))) e := by
  rw [AtOriginal, value, HostState.setSysfs_self, Option.map_some, trim_newline hbit]

include h in
/-- Writing an original value keeps the paths that are already back. -/
theorem Restorable.atOriginal_write {e e' : IdleEntry} (he : e ∈ entries) (he' : e' ∈ entries)
    {s : HostState} (hback : AtOriginal s e') :
    AtOriginal (s.setSysfs e.disablePath (some (e.original ++ "\n"))) e' := by
  by_cases hpath : e'.disablePath = e.disablePath
  · rw [AtOriginal, hpath, h.agree e he e' he' hpath]
    exact AtOriginal.of_write (h.bits e he).1 s
  · rw [AtOriginal, value, HostState.setSysfs_of_ne s hpath]
    exact hback

include h in
/-- The entries already written stay at their originals while the others are written. -/
theorem triple_restoreWrite (hdone : done ⊆ entries) (hes : es ⊆ entries) :
    Triple (host.machine faults false) I (fun s => R s ∧ ∀ e ∈ done, AtOriginal s e)
      (restoreWrite codec id j es) (fun _ s => R s ∧ ∀ e ∈ done ++ es, AtOriginal s e)
      (fun _ _ => faults = true) := by
  have hM := host.closed faults
  induction es generalizing done with
  | nil =>
    rw [List.append_nil]
    exact hM.triple_pure fun _ _ h => h
  | cons e rest ih =>
    obtain ⟨he, hrest⟩ := List.cons_subset.mp hes
    have hnext := @ih (done ++ [e])
      (List.append_subset.mpr ⟨hdone, List.cons_subset.mpr ⟨he, List.nil_subset _⟩⟩) hrest
    rw [List.append_assoc, List.singleton_append] at hnext
    have hsnoc : ∀ s, (∀ e' ∈ done, AtOriginal s e') → AtOriginal s e →
        ∀ e' ∈ done ++ [e], AtOriginal s e' := by
      intro s hback hlast e' he'
      rcases List.mem_append.mp he' with he' | he'
      · exact hback e' he'
      · rw [List.mem_singleton.mp he']
        exact hlast
    refine triple_readBit (fun s hI hs => h.read he hI hs.1) (fun _ _ _ _ h => h) fun v => ?_
    refine triple_of_state fun s hI hs => ?_
    obtain ⟨⟨hR, hback⟩, hval, hknown⟩ := hs
    rw [if_neg hknown]
    by_cases hchanged : v = e.desired ∧ v ≠ e.original
    · rw [if_pos hchanged]
      obtain ⟨hI', hR'⟩ := h.write s hI hR e he
      refine hM.triple_bind ((triple_writeValue (h.bits e he).1 hI').conseq (fun _ _ h => h)
        (fun _ _ _ h => h) fun _ _ _ h => h.2) fun _ => hnext.pre ?_
      rintro s' _ rfl
      exact ⟨hR', hsnoc _ (fun e' he' => h.atOriginal_write he (hdone he') (hback e' he'))
        (AtOriginal.of_write (h.bits e he).1 s)⟩
    · rw [if_neg hchanged]
      refine hnext.pre ?_
      rintro s' _ rfl
      have hv : v = e.original := by
        by_contra hne
        exact hknown ⟨hne, fun hd => hchanged ⟨hd, hne⟩⟩
      exact ⟨hR, hsnoc _ hback (hval.trans (congrArg some hv))⟩

include h in
/-- The verification of restored entries changes nothing. -/
theorem triple_restoreVerify (hes : es ⊆ entries) :
    Triple (host.machine faults false) I (fun s => R s ∧ ∀ e ∈ entries, AtOriginal s e)
      (restoreVerify codec id j es) (fun _ s => R s ∧ ∀ e ∈ entries, AtOriginal s e)
      (fun _ _ => faults = true) := by
  induction es with
  | nil => exact (host.closed faults).triple_pure fun _ _ h => h
  | cons e rest ih =>
    obtain ⟨he, hrest⟩ := List.cons_subset.mp hes
    refine triple_readBit (W := fun v _ => v = e.original) ?_ (fun _ _ _ _ h => h) fun v => ?_
    · intro s _ hs
      exact ⟨e.original, hs.2 e he, (h.bits e he).1, rfl⟩
    · refine triple_of_state fun s _ hs => ?_
      obtain ⟨hs, rfl⟩ := hs
      rw [if_neg (not_not.mpr rfl)]
      exact (ih hrest).pre fun s' _ hs' => hs' ▸ hs

end Passes

/-- A journalled operation meets what the passes rely on. -/
theorem Owns.restorable {s₀ : HostState} (hown : Owns codec host root base id j s₀) :
    Restorable (HostInv codec host root base) (Owns codec host root base id j) j.entries where
  bits _ he := hown.isBit he
  known _ hI hown' _ he := hown'.current hI he
  agree e he e' he' hpath := by
    have hinv := hown.sound.inventoried
    have horiginal := hinv.original he'
    rw [hpath, hinv.original he, Option.some.injEq] at horiginal
    exact horiginal.symm
  write s hI hown' e he := by
    have hbit := (hown.isBit he).1
    exact ⟨hown'.hostInv_write hI he (Or.inl (trim_newline hbit)),
      hown'.congr_journals rfl⟩

/-- The operation is finished and the host is as it was before any operation. -/
def RestoredTo (base : Sysfs) (id : String) (s : HostState) : Prop :=
  (∃ j, s.journals id = some j ∧ j.stage = .restored) ∧
    ∀ p, value s.sysfs p = value base p

/-- The journal is `j` with the two stages of a restoration, and every value is back. -/
def RestoredFrom (base : Sysfs) (id : String) (j : Journal) (s : HostState) : Prop :=
  (∃ a a' millis millis',
    s.journals id = some ((j.push .restoring a millis).push .restored a' millis')) ∧
    ∀ p, value s.sysfs p = value base p

/-- The restored journal records the outcome and the drain it was given. -/
theorem triple_restore_recorded :
    Triple (host.machine faults false) (HostInv codec host root base)
      (Owns codec host root base id j) (restore codec root id j)
      (fun _ => RestoredFrom base id j) (fun _ _ => faults = true) := by
  have hM := host.closed faults
  refine triple_of_state fun s₀ _ hown₀ => Triple.pre ?_ (fun s _ hs => hs ▸ hown₀)
  have hvalid := hown₀.sound.valid
  refine hM.triple_bind (triple_validateInventory.conseq (fun _ _ h => h) (fun _ _ _ h => h)
    fun _ _ _ h => h.2) fun _ => ?_
  refine hM.triple_bind (triple_restoreCheck hown₀.restorable (List.Subset.refl _)) fun _ => ?_
  refine triple_actorTransition .restoring fun a millis => ?_
  obtain ⟨j', hj'⟩ : ∃ j', j' = j.push .restoring a millis := ⟨_, rfl⟩
  rw [← hj']
  have hown' : ∀ s, Owns codec host root base id j s → Owns codec host root base id j' s :=
    fun s hown => hj' ▸ hown.push ..
  have hrestorable := (hown' s₀ hown₀).restorable
  have hvalid' : j'.validate codec = .ok () := hj' ▸ Journal.validate_push hvalid ..
  have hstage' : j'.stage ≠ .restored := by simp [hj']
  refine hM.triple_bind (triple_storeJournal (Q := Owns codec host root base id j') hvalid' ?_)
    fun _ => ?_
  · exact fun s hI hown => (hown' s hown).progress hI hstage'
  refine hM.triple_bind ((triple_restoreWrite hrestorable (List.nil_subset _)
    (List.Subset.refl _)).pre fun _ _ h => ⟨h, fun _ he => nomatch he⟩) fun _ => ?_
  refine hM.triple_bind (A := fun _ s => Owns codec host root base id j' s ∧
    ∀ e ∈ j'.entries, AtOriginal s e) ?_ fun _ => ?_
  · refine (triple_looks (looks_validateInventory _ _)).conseq (fun _ _ h => h)
      (fun _ _ _ h => h.1) ?_
    rintro e s hI ⟨⟨hown, _⟩, hfaults | hno⟩
    · exact hfaults
    · obtain ⟨cpus, hcpus, hy⟩ := hown.sound.inventoried
      exact absurd (validateInventory_reread hy hcpus (hown.rewritten hI)) (hno ())
  refine hM.triple_bind (triple_restoreVerify hrestorable (List.Subset.refl _)) fun _ => ?_
  refine triple_actorTransition .restored fun a' millis' => ?_
  refine triple_storeJournal (Journal.validate_push hvalid' ..) ?_
  rintro s hI ⟨hown, hback⟩
  have hvalues := hown.values_eq hI hback
  have hown' := hown.push .restored a' millis'
  refine ⟨hown'.hostInv_store hI fun p => Or.inl (hvalues p), ⟨a, a', millis, millis', ?_⟩, hvalues⟩
  rw [HostState.store_self, hj']

theorem triple_restore :
    Triple (host.machine faults false) (HostInv codec host root base)
      (Owns codec host root base id j) (restore codec root id j)
      (fun _ => RestoredTo base id) (fun _ _ => faults = true) := by
  refine triple_restore_recorded.post ?_
  rintro _ s _ ⟨⟨a, a', millis, millis', hj⟩, hvalues⟩
  exact ⟨⟨_, hj, Journal.push_stage ..⟩, hvalues⟩

/-- Applying the recorded entries keeps the operation in charge of its tree. -/
theorem triple_applyEntries {es : List IdleEntry} (hes : es ⊆ j.entries) :
    Triple (host.machine faults false) (HostInv codec host root base)
      (Owns codec host root base id j) (applyEntries es)
      (fun _ => Owns codec host root base id j) (fun _ => Owns codec host root base id j) := by
  have hM := host.closed faults
  induction es with
  | nil => exact hM.triple_pure fun _ _ h => h
  | cons e rest ih =>
    obtain ⟨he, hrest⟩ := List.cons_subset.mp hes
    refine triple_readBit (fun s hI hown => hown.restorable.read he hI hown)
      (fun _ _ _ h _ => h) fun v => ?_
    refine triple_ite (fun _ => hM.triple_throw fun _ _ h => h.1) fun _ => ?_
    exact hM.triple_bind ((triple_writeBit he (Or.inr rfl)).pre fun _ _ h => h.1)
      fun _ => ih hrest

theorem triple_apply :
    Triple (host.machine faults false) (HostInv codec host root base)
      (Owns codec host root base id j) (apply root j.entries)
      (fun _ => Owns codec host root base id j) (fun _ => Owns codec host root base id j) :=
  (host.closed faults).triple_bind (triple_validateInventory.conseq (fun _ _ h => h)
    (fun _ _ _ h => h) fun _ _ _ h => h.1) fun _ => triple_applyEntries (List.Subset.refl _)

end Snoozer.Benchctl
