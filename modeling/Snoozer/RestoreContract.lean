import Snoozer.RestorePasses
import Snoozer.RunReplay

/-! The contract of `restore`: what it may write among foreign writers and I/O errors,
and its two results when it runs alone on the journalled inventory. -/
namespace Snoozer.Benchctl
open Interactive Fallible

variable {codec : Codec} {host : Host} {root : PathBuf} {id : String} {j : Journal}
  {entries es : List IdleEntry} {s₀ : HostState}

/-- Only the entries' own paths have changed, and each has one of its two values. -/
structure Underway (s₀ : HostState) (entries : List IdleEntry) (s : HostState) : Prop where
  others : ∀ path, path ∉ entries.map IdleEntry.disablePath → s.sysfs path = s₀.sysfs path
  known : ∀ e ∈ entries, AtOriginal s e ∨ value s.sysfs e.disablePath = some e.desired

/-- Entries with distinct paths and bits can be restored from where they are under way. -/
theorem Underway.restorable (hpaths : (entries.map IdleEntry.disablePath).Nodup)
    (hbits : ∀ e ∈ entries, IsBit e.original ∧ IsBit e.desired) :
    Restorable (fun _ => True) (Underway s₀ entries) entries where
  bits := hbits
  known _ _ h := h.known
  agree e he e' he' hpath := by rw [List.inj_on_of_nodup_map hpaths he' he hpath]
  write s _ h e he := by
    refine ⟨trivial, fun path hpath => ?_, fun e' he' => ?_⟩
    · have hne : path ≠ e.disablePath := fun heq => hpath (heq ▸ List.mem_map_of_mem he)
      rw [HostState.setSysfs_of_ne s hne]
      exact h.others path hpath
    · by_cases hpath : e'.disablePath = e.disablePath
      · rw [List.inj_on_of_nodup_map hpaths he' he hpath]
        exact Or.inl (AtOriginal.of_write (hbits e he).1 s)
      · rw [AtOriginal, value, HostState.setSysfs_of_ne s hpath]
        exact h.known e' he'

/-- The journalled inventory stays the current one. -/
theorem Underway.rewritten (hmatch : Yields (host.look s₀) (validateInventory root entries) ())
    (hbits : ∀ e ∈ entries, IsBit e.original ∧ IsBit e.desired) {s : HostState}
    (h : Underway s₀ entries s) : Rewritten s₀ s entries := by
  refine ⟨fun dir => ?_, fun e he => ?_⟩
  · have hother : dir.join "name" ∉ entries.map IdleEntry.disablePath := by
      intro hmem
      obtain ⟨e, he, hpath⟩ := List.mem_map.mp hmem
      obtain ⟨⟨dir', hdir'⟩, _⟩ := validateInventory_bits hmatch he
      have hname : isName (dir.join "name") = false := by
        rw [← hpath, hdir', isName_disable]
      rw [isName_name] at hname
      exact nomatch hname
    rw [value, value, h.others _ hother]
  · rcases h.known e he with hval | hval
    · exact ⟨_, hval, (hbits e he).1⟩
    · exact ⟨_, hval, (hbits e he).2⟩

/-- A conflict found at an entry, with nothing written but its record. -/
def ConflictAt (s₀ : HostState) (id : String) (entries : List IdleEntry) (err : BenchError)
    (s : HostState) : Prop :=
  ∃ e ∈ entries, ∃ v, value s₀.sysfs e.disablePath = some v ∧ v ≠ e.original ∧ v ≠ e.desired ∧
    err = .restoreConflict e.disablePath (Pass.check.expected e) v ∧
    s.sysfs = s₀.sysfs ∧ ∃ j', s.journals id = some j' ∧ j'.stage = .restoreConflict

/-- A conflict is stored in the journal and ends the restore. -/
theorem triple_restoreConflict (hvalid : j.validate codec = .ok ()) {e : IdleEntry}
    (he : e ∈ entries) {v : String} (hval : value s₀.sysfs e.disablePath = some v)
    (hne : v ≠ e.original ∧ v ≠ e.desired) {A : Unit → HostState → Prop} :
    Triple (host.machine false false) (fun _ => True) (· = s₀)
      (restoreConflict codec id j e s!"{e.original} or {e.desired}" v) A
      (ConflictAt s₀ id entries) := by
  have hM := host.closed false
  refine triple_actorTransition .restoreConflict fun a millis => ?_
  obtain ⟨j', hj'⟩ : ∃ j', j' = j.push .restoreConflict a millis := ⟨_, rfl⟩
  rw [← hj']
  have hvalid' : j'.validate codec = .ok () := hj' ▸ Journal.validate_push hvalid ..
  have hstage' : j'.stage = .restoreConflict := by rw [hj', Journal.push_stage]
  refine hM.triple_bind ((triple_storeJournal (Q := (· = s₀.store id j')) hvalid' ?_).conseq
    (fun _ _ h => h) (fun _ _ _ h => h) fun _ _ _ h => nomatch h) fun _ => hM.triple_throw ?_
  · rintro s _ rfl
    exact ⟨trivial, rfl⟩
  · rintro s _ rfl
    exact ⟨e, he, v, hval, hne.1, hne.2, rfl, rfl, j', HostState.store_self .., hstage'⟩

/-- The first pass, from a state in which every entry has some bit. -/
theorem triple_aloneCheck (hvalid : j.validate codec = .ok ())
    (hbits : ∀ e ∈ entries, ∃ v, value s₀.sysfs e.disablePath = some v ∧ IsBit v)
    (hes : es ⊆ entries) :
    Triple (host.machine false false) (fun _ => True) (· = s₀) (restoreCheck codec id j es)
      (fun _ s => s = s₀ ∧ ∀ e ∈ es, AtOriginal s₀ e ∨ value s₀.sysfs e.disablePath = some e.desired)
      (ConflictAt s₀ id entries) := by
  have hM := host.closed false
  induction es with
  | nil => exact hM.triple_pure fun _ _ h => ⟨h, fun _ he => nomatch he⟩
  | cons e rest ih =>
    obtain ⟨he, hrest⟩ := List.cons_subset.mp hes
    refine triple_readBit (W := fun v _ => value s₀.sysfs e.disablePath = some v) ?_
      (fun _ _ _ _ h => nomatch h) fun v => triple_of_state fun s _ hs => ?_
    · rintro s _ rfl
      obtain ⟨v, hv, hbit⟩ := hbits e he
      exact ⟨v, hv, hbit, hv⟩
    obtain ⟨rfl, hval⟩ := hs
    refine triple_ite (fun hne => triple_restoreConflict hvalid he hval hne) fun hknown => ?_
    refine (ih hrest).post fun _ s' _ hs' => ⟨hs'.1, List.forall_mem_cons.mpr ⟨?_, hs'.2⟩⟩
    rw [AtOriginal, hval, Option.some.injEq, Option.some.injEq]
    by_contra hno
    exact hknown (not_or.mp hno)

/-- Alone, on a host that matches its journal, a restoration puts every original back, or
reports a conflict and leaves the tree as it was. -/
theorem triple_aloneRestore (hpaths : (j.entries.map IdleEntry.disablePath).Nodup)
    (hbits : ∀ e ∈ j.entries, IsBit e.original ∧ IsBit e.desired)
    (hvalid : j.validate codec = .ok ())
    (hmatch : Yields (host.look s₀) (validateInventory root j.entries) ()) :
    Triple (host.machine false false) (fun _ => True) (· = s₀) (restore codec root id j)
      (fun _ s => Underway s₀ j.entries s₀ ∧ (∀ e ∈ j.entries, AtOriginal s e) ∧
        (∀ path, path ∉ j.entries.map IdleEntry.disablePath → s.sysfs path = s₀.sysfs path) ∧
        ∃ j', s.journals id = some j' ∧ j'.stage = .restored)
      (ConflictAt s₀ id j.entries) := by
  have hM := host.closed false
  have hrestorable : Restorable (fun _ => True) (Underway s₀ j.entries) j.entries :=
    Underway.restorable hpaths hbits
  have hvalidate : ∀ P : HostState → Prop,
      (∀ s, P s → Yields (host.look s) (validateInventory root j.entries) ()) →
      Triple (host.machine false false) (fun _ => True) P (validateInventory root j.entries)
        (fun _ => P) (ConflictAt s₀ id j.entries) := by
    intro P hP
    refine (triple_looks (looks_validateInventory _ _)).conseq (fun _ _ h => h)
      (fun _ _ _ h => h.1) ?_
    rintro err s _ ⟨hs, hfaults | hno⟩
    · exact nomatch hfaults
    · exact absurd (hP s hs) (hno ())
  refine hM.triple_bind (hvalidate _ fun s hs => hs ▸ hmatch) fun _ => ?_
  refine hM.triple_bind (triple_aloneCheck hvalid
    (fun e he => (validateInventory_bits hmatch he).2) (List.Subset.refl _)) fun _ =>
    triple_of_state fun s _ hchecked => ?_
  have hstart : Underway s₀ j.entries s₀ := ⟨fun _ _ => rfl, hchecked.2⟩
  rw [hchecked.1]
  refine triple_actorTransition .restoring fun a millis => ?_
  obtain ⟨j', hj'⟩ : ∃ j', j' = j.push .restoring a millis := ⟨_, rfl⟩
  rw [← hj']
  have hvalid' : j'.validate codec = .ok () := hj' ▸ Journal.validate_push hvalid ..
  have hentries : j'.entries = j.entries := hj' ▸ Journal.push_entries ..
  rw [hentries]
  refine hM.triple_bind (A := fun _ => Underway s₀ j.entries) ((triple_storeJournal hvalid' ?_).conseq
    (fun _ _ h => h) (fun _ _ _ h => h) fun _ _ _ h => nomatch h) fun _ => ?_
  · rintro s _ rfl
    exact ⟨trivial, hstart.others, hstart.known⟩
  refine hM.triple_bind (((triple_restoreWrite hrestorable (List.nil_subset _)
    (List.Subset.refl _)).pre fun _ _ h => ⟨h, fun _ he => nomatch he⟩).conseq (fun _ _ h => h)
    (fun _ _ _ h => h) fun _ _ _ h => nomatch h) fun _ => ?_
  refine hM.triple_bind (hvalidate _ fun s hs =>
    validateInventory_rewritten hmatch (hs.1.rewritten hmatch hbits)) fun _ => ?_
  refine hM.triple_bind ((triple_restoreVerify hrestorable (List.Subset.refl _)).conseq
    (fun _ _ h => h) (fun _ _ _ h => h) fun _ _ _ h => nomatch h) fun _ => ?_
  refine triple_actorTransition .restored fun a millis => ?_
  refine (triple_storeJournal (Journal.validate_push hvalid' ..) ?_).conseq (fun _ _ h => h)
    (fun _ _ _ h => h) fun _ _ _ h => nomatch h
  rintro s _ ⟨hs, hback⟩
  exact ⟨trivial, hstart, hback, hs.others, _, HostState.store_self .., Journal.push_stage ..⟩

/-- There is one bad read, so what a failure reports is what came of it. -/
theorem FailedAt.refused {err : BenchError} {t t₁ t₂ : HostTrace} {e : IdleEntry} {c : String}
    (h : FailedAt codec id entries err t) (hshape : Shape entries t)
    (hpaths : (entries.map IdleEntry.disablePath).Nodup)
    (ht : t = t₁ ++ readEvent e.disablePath c :: t₂) (he : e ∈ entries)
    (hown : OwnRead t₁ e.disablePath) (hbad : ¬ (IsBit (trim c) ∧ (passOf t₁).Accepts e (trim c))) :
    Refused codec id (passOf t₁) e c t₂ err := by
  rcases h with h | ⟨t₁', e', c', t₂', rfl, hbad', hrefused⟩
  · exact absurd (h t₁ _ t₂ ht hown e he rfl) hbad
  · have hrecording := hshape.bad rfl hbad'.entry hbad'.own hbad'.bad
    rcases cons_split ht with ⟨_, rfl⟩ | ⟨rfl, hread, rfl⟩ | hmem
    · exact absurd (hbad'.before t₁ _ _ rfl hown e he rfl) hbad
    · simp only [readEvent, Sigma.mk.injEq, HostOp.readToString.injEq] at hread
      obtain ⟨hpath, hc⟩ := hread
      cases List.inj_on_of_nodup_map hpaths he hbad'.entry hpath
      cases hc
      exact hrefused
    · exact (hrecording _ hmem).elim

/-- Among foreign writers and I/O errors every write of a restoration puts an original
back over the other value, just read; a value that a pass does not know ends the
restoration; and it succeeds only after finding every original in its last pass. Alone,
it restores every entry or leaves the tree as it was. -/
theorem restore_contract (codec : Codec) (host : Host) (root : PathBuf) (id : String) (j : Journal)
    (hpaths : (j.entries.map IdleEntry.disablePath).Nodup)
    (hbits : ∀ e ∈ j.entries, IsBit e.original ∧ IsBit e.desired) :
    (∀ s p s' t, Reach (traced (host.machine true true)) ((restore codec root id j).run, (s, []))
        (p, (s', t)) →
      (∀ t₁ path contents x t₂, t = t₁ ++ ⟨.write path contents, x⟩ :: t₂ →
        ∃ e ∈ j.entries, path = e.disablePath ∧ contents = e.original ++ "\n" ∧
          e.desired ≠ e.original ∧ ∃ t₀ c, t₁ = t₀ ++ [readEvent path c] ∧ trim c = e.desired) ∧
      (∀ t₁ e c t₂, t = t₁ ++ readEvent e.disablePath c :: t₂ → e ∈ j.entries →
        OwnRead t₁ e.disablePath → ¬ (IsBit (trim c) ∧ (passOf t₁).Accepts e (trim c)) →
        (∀ ev ∈ t₂, Recording ev) ∧
          ∀ r, p = .ret r → ∃ err, r = .error err ∧ Refused codec id (passOf t₁) e c t₂ err) ∧
      (p = .ret (.ok ()) → Finished id j t)) ∧
    ∀ s, j.validate codec = .ok () → s.FinitelyMany →
      Yields (host.look s) (validateInventory root j.entries) () →
      (∃ r s', Reach (host.machine false false) ((restore codec root id j).run, s) (.ret r, s')) ∧
      ∀ r s', Reach (host.machine false false) ((restore codec root id j).run, s) (.ret r, s') →
        (r = .ok () ∧ (∀ e ∈ j.entries, AtOriginal s' e) ∧
          (∀ path, path ∉ j.entries.map IdleEntry.disablePath → s'.sysfs path = s.sysfs path) ∧
          ∃ j', s'.journals id = some j' ∧ j'.stage = .restored) ∨
        ∃ err, r = .error err ∧ ConflictAt s id j.entries err s' := by
  constructor
  · intro s p s' t hreach
    obtain ⟨hshape, hends⟩ := triple_anyRestore hpaths [] (Or.inl clean_nil) rfl p t
      (reach_traceMachine hreach)
    refine ⟨fun t₁ path contents x t₂ ht => hshape.write ht, ?_, fun hp => (hends _ hp).2⟩
    intro t₁ e c t₂ ht he hown hbad
    refine ⟨hshape.bad ht he hown hbad, fun r hp => ?_⟩
    have hr := hends r hp
    cases r with
    | ok u => exact absurd (hr.1 t₁ _ t₂ ht hown e he rfl) hbad
    | error err => exact ⟨err, rfl, FailedAt.refused hr hshape hpaths ht he hown hbad⟩
  · intro s hvalid hfinite hmatch
    have hcalls : Within (HostOp.Checked codec) (restore codec root id j) :=
      (permits_checked ..).restore root
    refine ⟨hcalls.loopFree.completes host.answers hfinite, ?_⟩
    intro r s' hreach
    have hr := ((triple_aloneRestore hpaths hbits hvalid hmatch).returns trivial rfl hreach).2
    cases r with
    | ok u => exact Or.inl ⟨rfl, hr.2⟩
    | error err => exact Or.inr ⟨err, rfl, hr⟩

def samplePath (state : String) : PathBuf := (sampleTree.join state).join "disable"

/-- The journal of an operation on the sample tree. -/
def sampleJournal : Journal where
  version := journalVersion
  operationId := "op"
  request := sampleRecorded
  requestHash := ""
  coordinator := ⟨0, 0⟩
  bootId := "boot"
  entries := [⟨0, 0, "POLL", samplePath "state0", "0", "0"⟩,
    ⟨0, 1, "C1", samplePath "state1", "0", "0"⟩, ⟨0, 2, "C6", samplePath "state2", "0", "1"⟩]
  outcome := none
  transitions := [⟨.applied, ⟨0, 0⟩, 0⟩]

/-- The deep state is disabled. -/
def sampleApplied : HostState :=
  (HostState.initial sampleSysfs).setSysfs (samplePath "state2") (some "1\n")

theorem sampleApplied_finitelyMany : sampleApplied.FinitelyMany :=
  ⟨[], .nil, fun _ => by simp [sampleApplied, HostState.initial]⟩

theorem sampleJournal_matches :
    Yields (sampleHost.look sampleApplied) (validateInventory sampleRoot sampleJournal.entries) ()
    := by
  unfold Yields
  decide +kernel

/-- The sample's applied tree is restored. -/
theorem restore_contract_applied :
    ∃ r s', Reach (sampleHost.machine false false)
        ((restore (sampleCodec fun _ => []) sampleRoot "op" sampleJournal).run, sampleApplied)
        (.ret r, s') ∧
      r = .ok () ∧ value s'.sysfs (samplePath "state2") = some "0" := by
  have hbits : ∀ e ∈ sampleJournal.entries, IsBit e.original ∧ IsBit e.desired := by
    simp [sampleJournal, IsBit]
  obtain ⟨_, hcontract⟩ := restore_contract (sampleCodec fun _ => []) sampleHost sampleRoot "op"
    sampleJournal (by decide) hbits
  obtain ⟨⟨r, s', hr⟩, hall⟩ := hcontract sampleApplied (by decide) sampleApplied_finitelyMany
    sampleJournal_matches
  refine ⟨r, s', hr, ?_⟩
  rcases hall r s' hr with ⟨rfl, hback, _⟩ | ⟨err, rfl, e, he, v, hv, hne, hne', _⟩
  · exact ⟨rfl, hback ⟨0, 2, "C6", samplePath "state2", "0", "1"⟩ (by simp [sampleJournal])⟩
  · -- Every entry has one of its two values.
    have hknown : ∀ e ∈ sampleJournal.entries, value sampleApplied.sysfs e.disablePath = some e.original ∨
        value sampleApplied.sysfs e.disablePath = some e.desired := by decide +kernel
    rcases hknown e he with h | h
    · exact absurd (Option.some.inj (hv.symm.trans h)) hne
    · exact absurd (Option.some.inj (hv.symm.trans h)) hne'

/-- What a look answers is an answer of the host. -/
theorem Host.look_act (host : Host) (s : HostState) (op : HostOp) (x : HostAns op)
    (h : host.look s op = some x) : (host.machine false true).act op s x s := by
  cases op with
  | symlinkMetadata path =>
    obtain ⟨b, hb, rfl⟩ := Option.map_eq_some_iff.mp h
    exact ⟨hb, rfl⟩
  | readDir path =>
    obtain ⟨names, hnames, rfl⟩ := Option.map_eq_some_iff.mp h
    exact ⟨Or.inl ⟨names, rfl, hnames⟩, rfl⟩
  | readToString path =>
    obtain ⟨c, hc, rfl⟩ := Option.map_eq_some_iff.mp h
    exact ⟨hc, rfl⟩
  | _ => cases h

/-- The first call after the validation reads the first entry, and a malformed value
ends the restoration. -/
theorem restore_read_first (codec : Codec) (root : PathBuf) (id : String) {e : IdleEntry}
    {rest : List IdleEntry} (hj : j.entries = e :: rest) {c : String} (hc : ¬ IsBit (trim c)) :
    ∃ K k, (restore codec root id j).run = (validateInventory root j.entries).run.bind K ∧
      K (.ok ()) = .call (.readToString e.disablePath) k ∧
      k (.ok c) = .ret (.error (malformed e.disablePath)) := by
  obtain ⟨f, hf⟩ : ∃ f, restore codec root id j = validateInventory root j.entries >>= fun _ =>
      restoreCheck codec id j j.entries >>= f := ⟨_, rfl⟩
  have hno : trim c ≠ "0" ∧ trim c ≠ "1" := not_or.mp hc
  rw [hf, hj]
  refine ⟨_, _, rfl, rfl, ?_⟩
  change ((ExceptT.run (if trim c ≠ "0" ∧ trim c ≠ "1" then throw (malformed e.disablePath)
    else pure (trim c) : Bench String)).bind _).bind _ = _
  rw [if_pos hno]
  rfl

/-- Somebody writes `2` to a file right before the first pass reads it: the value is
neither of the two that the entry knows, and no conflict is reported or recorded. -/
theorem restore_malformed_value :
    (sampleJournal.entries.map IdleEntry.disablePath).Nodup ∧
    (∀ e ∈ sampleJournal.entries, IsBit e.original ∧ IsBit e.desired) ∧
    ∃ e ∈ sampleJournal.entries, ∃ s' t₁ t₂,
      Reach (traced (sampleHost.machine false true))
        ((restore (sampleCodec fun _ => []) sampleRoot "op" sampleJournal).run, (sampleApplied, []))
        (.ret (.error (malformed e.disablePath)),
          (s', t₁ ++ readEvent e.disablePath "2\n" :: t₂)) ∧
      OwnRead t₁ e.disablePath ∧ passOf t₁ = .check ∧
      trim "2\n" ≠ e.original ∧ trim "2\n" ≠ e.desired ∧ s'.journals "op" = none := by
  have hpaths : (sampleJournal.entries.map IdleEntry.disablePath).Nodup := by decide
  have htrim : trim "2\n" = "2" := by decide
  have hc : ¬ IsBit (trim "2\n") := by simp [IsBit, htrim]
  refine ⟨hpaths, by simp [sampleJournal, IsBit],
    ⟨0, 0, "POLL", samplePath "state0", "0", "0"⟩, by simp [sampleJournal], ?_⟩
  obtain ⟨t, ht⟩ := Prog.answer_reach (sampleHost.look_act sampleApplied) sampleJournal_matches []
  rw [List.nil_append] at ht
  have hat : At sampleJournal.entries .check t :=
    ((triple_anyValidateInventory sampleRoot sampleJournal.entries).returns (Or.inl clean_nil)
      ⟨clean_nil, (fun _ h => nomatch h), rfl⟩ (reach_traceMachine ht)).2.2.2.2 rfl
  obtain ⟨K, k, hrestore, hread, hmalformed⟩ :=
    restore_read_first (sampleCodec fun _ => []) sampleRoot "op" (j := sampleJournal) rfl hc
  have hwritten : Reach (traced (sampleHost.machine false true))
      (Prog.call (.readToString (samplePath "state0")) k, (sampleApplied, t))
      (Prog.call (.readToString (samplePath "state0")) k,
        (sampleApplied.setSysfs (samplePath "state0") (some "2\n"), t)) :=
    .single (.env ⟨⟨rfl, _, _, rfl⟩, rfl⟩)
  have hended : Step (traced (sampleHost.machine false true))
      (Prog.call (.readToString (samplePath "state0")) k,
        (sampleApplied.setSysfs (samplePath "state0") (some "2\n"), t))
      (k (.ok "2\n"), (sampleApplied.setSysfs (samplePath "state0") (some "2\n"),
        t ++ [readEvent (samplePath "state0") "2\n"])) :=
    .call ⟨⟨HostState.setSysfs_self .., rfl⟩, rfl⟩
  rw [hmalformed] at hended
  refine ⟨sampleApplied.setSysfs (samplePath "state0") (some "2\n"), t, [], ?_,
    ⟨isName_disable _, hat.calm⟩, hat.pass, ?_, ?_, rfl⟩
  · rw [hrestore]
    have hvalidated := Reach.bind ht K
    rw [Prog.ret_bind, hread] at hvalidated
    exact (hvalidated.trans hwritten).tail hended
  · simp [htrim]
  · simp [htrim]

end Snoozer.Benchctl
