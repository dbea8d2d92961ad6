import Snoozer.RestoreTrace

/-! The three passes of `restore` along a trace, and what its result says about the
calls that it made. -/
namespace Snoozer.Benchctl
open Interactive Fallible

variable {codec : Codec} {id : String} {j : Journal} {entries es : List IdleEntry} {t : HostTrace}
  {π : Pass}

/-- What comes of a bad read: the conflict is recorded and returned, or recording it
fails, or the value is malformed and nothing is recorded. -/
def Refused (codec : Codec) (id : String) (π : Pass) (e : IdleEntry) (c : String)
    (t₂ : HostTrace) (err : BenchError) : Prop :=
  IsBit (trim c) ∧ (∃ j : Journal, j.stage = .restoreConflict ∧
    (⟨.writeJournal id j, .ok ()⟩ ∈ t₂ ∧
        err = .restoreConflict e.disablePath (π.expected e) (trim c) ∨
      ⟨.writeJournal id j, .error err⟩ ∈ t₂ ∨ j.validate codec = .error err)) ∨
  ¬ IsBit (trim c) ∧ t₂ = [] ∧ err = malformed e.disablePath

/-- A failure leaves every call good, or follows from the one bad read. -/
def FailedAt (codec : Codec) (id : String) (entries : List IdleEntry) (err : BenchError)
    (t : HostTrace) : Prop :=
  Clean entries t ∨ ∃ t₁ e c t₂, t = t₁ ++ readEvent e.disablePath c :: t₂ ∧
    BadRead entries t₁ e c ∧ Refused codec id (passOf t₁) e c t₂ err

/-- Storing a journal is one event, or none of an invalid one. -/
theorem triple_anyStoreJournal {I P : HostTrace → Prop} {B : BenchError → HostTrace → Prop}
    (hI : ∀ t (x : Except BenchError Unit), P t → I (t ++ [⟨.writeJournal id j, x⟩]))
    (hinvalid : ∀ err t, P t → j.validate codec = .error err → B err t)
    (herror : ∀ err t, P t → B err (t ++ [⟨.writeJournal id j, .error err⟩])) :
    Triple Any I P (storeJournal codec id j)
      (fun _ t' => ∃ t, P t ∧ t' = t ++ [⟨.writeJournal id j, .ok ()⟩]) B := by
  have hM : Closed Any := traceMachine_closed
  unfold storeJournal
  cases hvalid : j.validate codec with
  | error err => exact hM.triple_throw fun t _ hP => hinvalid err t hP hvalid
  | ok u =>
    refine hM.triple_bind (A := fun _ => P) (hM.triple_pure fun _ _ h => h) fun _ => ?_
    refine hM.triple_bind (A := fun x t' => ∃ t, P t ∧ t' = t ++ [⟨.writeJournal id j, x⟩])
      (hM.triple_ask ?_) fun x => ?_
    · rintro t x _ _ hP rfl
      exact ⟨hI t x hP, t, hP, rfl⟩
    · cases x with
      | ok u => exact hM.triple_pure fun _ _ h => h
      | error err =>
        refine hM.triple_throw fun t' _ h => ?_
        obtain ⟨t, hP, rfl⟩ := h
        exact herror err t hP

/-- A transition asks for the actor and the time and goes on. -/
theorem triple_anyTransition {stage : Stage} {I P : HostTrace → Prop} {f : Journal → Bench Unit}
    {A : Unit → HostTrace → Prop} {B : BenchError → HostTrace → Prop}
    (hI : ∀ t, P t → ∀ (a : Actor) (n : ℕ),
      I (t ++ [⟨.actor, a⟩]) ∧ I (t ++ [⟨.actor, a⟩, ⟨.nowMillis, n⟩]))
    (hf : ∀ a n, Triple Any I (fun t' => ∃ t, P t ∧ t' = t ++ [⟨.actor, a⟩, ⟨.nowMillis, n⟩])
      (f (j.push stage a n)) A B) :
    Triple Any I P (do f (← j.transition stage (← actor))) A B := by
  have hM : Closed Any := traceMachine_closed
  refine hM.triple_bind (A := fun a t' => ∃ t, P t ∧ t' = t ++ [⟨.actor, a⟩]) (hM.triple_ask ?_)
    fun a => ?_
  · rintro t a _ _ h rfl
    exact ⟨(hI t h a 0).1, t, h, rfl⟩
  refine hM.triple_bind (A := fun j' t' => ∃ n : ℕ, j' = j.push stage a n ∧
    ∃ t, P t ∧ t' = t ++ [⟨.actor, a⟩, ⟨.nowMillis, n⟩]) ?_ fun j' =>
    triple_exists fun n => triple_of_pure fun hj' => hj' ▸ hf a n
  refine hM.triple_bind (A := fun n t' => ∃ t, P t ∧ t' = t ++ [⟨.actor, a⟩, ⟨.nowMillis, n⟩])
    (hM.triple_ask ?_) fun n => hM.triple_pure fun _ _ h => ⟨n, rfl, h⟩
  rintro _ n _ _ ⟨t, h, rfl⟩ rfl
  rw [List.append_assoc]
  exact ⟨(hI t h a n).2, t, h, rfl⟩

/-- Recording a conflict. -/
theorem triple_anyRestoreConflict {e : IdleEntry} {c : String} (hbad : BadRead entries t e c)
    (hbit : IsBit (trim c)) {A : Unit → HostTrace → Prop} :
    Triple Any (Shape entries) (· = t ++ [readEvent e.disablePath c])
      (restoreConflict codec id j e ((passOf t).expected e) (trim c)) A
      (FailedAt codec id entries) := by
  have hM : Closed Any := traceMachine_closed
  -- The trace so far: the bad read and then only calls of the record.
  have hshape : ∀ tail : HostTrace, (∀ ev ∈ tail, Recording ev) →
      Shape entries (t ++ readEvent e.disablePath c :: tail) :=
    fun tail htail => Or.inr ⟨t, e, c, tail, rfl, hbad, htail⟩
  refine triple_anyTransition (fun t' ht' a n => ?_) fun a n => ?_
  · rw [ht', List.append_assoc, List.append_assoc]
    exact ⟨hshape [_] (by simp [Recording]), hshape [_, _] (by simp [Recording])⟩
  obtain ⟨j', hj'⟩ : ∃ j', j' = j.push .restoreConflict a n := ⟨_, rfl⟩
  rw [← hj']
  have hstage : j'.stage = .restoreConflict := by rw [hj', Journal.push_stage]
  refine hM.triple_bind (triple_anyStoreJournal ?_ ?_ ?_) fun _ => hM.triple_throw ?_
  · rintro _ x ⟨_, rfl, rfl⟩
    rw [List.append_assoc, List.append_assoc]
    exact hshape [_, _, _] (by simp [Recording])
  · rintro err _ ⟨_, rfl, rfl⟩ hinvalid
    rw [List.append_assoc]
    exact Or.inr ⟨t, e, c, _, rfl, hbad, Or.inl ⟨hbit, j', hstage, Or.inr (Or.inr hinvalid)⟩⟩
  · rintro err _ ⟨_, rfl, rfl⟩
    rw [List.append_assoc, List.append_assoc]
    exact Or.inr ⟨t, e, c, _, rfl, hbad,
      Or.inl ⟨hbit, j', hstage, Or.inr (Or.inl (by simp))⟩⟩
  · rintro _ _ ⟨_, ⟨_, rfl, rfl⟩, rfl⟩
    rw [List.append_assoc, List.append_assoc]
    exact Or.inr ⟨t, e, c, _, rfl, hbad, Or.inl ⟨hbit, j', hstage, Or.inl ⟨by simp, rfl⟩⟩⟩

section Passes

variable (hpaths : (entries.map IdleEntry.disablePath).Nodup)

include hpaths in
/-- One read of a pass: go on, or fail with the conflict. -/
theorem triple_passRead {e : IdleEntry} (he : e ∈ entries) (hname : isName e.disablePath = false)
    (hat : At entries π t) {f : String → Bench Unit} {A : Unit → HostTrace → Prop}
    (hconflict : ∀ v, ¬ π.Accepts e v → f v = restoreConflict codec id j e (π.expected e) v)
    (hgo : ∀ c, π.Accepts e (trim c) → At entries π (t ++ [readEvent e.disablePath c]) →
      Triple Any (Shape entries) (· = t ++ [readEvent e.disablePath c]) (f (trim c)) A
        (FailedAt codec id entries)) :
    Triple Any (Shape entries) (· = t) (readBit e.disablePath >>= f) A
      (FailedAt codec id entries) := by
  have hM : Closed Any := traceMachine_closed
  refine hM.triple_bind ((triple_ownRead he hname hpaths hat).conseq (fun _ _ h => h)
    (fun _ _ _ h => h) ?_) fun v => triple_exists fun c => triple_of_pure fun hv =>
    triple_of_pure fun hbit => ?_
  · rintro err t' _ (hclean | ⟨c, rfl, hbad, hbit, rfl⟩)
    · exact Or.inl hclean
    · exact Or.inr ⟨t, e, c, [], rfl, hbad, Or.inr ⟨hbit, rfl, rfl⟩⟩
  subst hv
  refine triple_of_state fun t' _ ht' => ?_
  obtain ⟨rfl, ⟨haccepts, hat'⟩ | ⟨hno, hbad⟩⟩ := ht'
  · exact hgo c haccepts hat'
  · rw [hconflict _ hno, ← hat.pass]
    exact triple_anyRestoreConflict hbad hbit

include hpaths in
/-- The first pass only reads. -/
theorem triple_anyRestoreCheck (hes : es ⊆ entries)
    (hnames : ∀ e ∈ es, isName e.disablePath = false) :
    Triple Any (Shape entries) (At entries .check) (restoreCheck codec id j es)
      (fun _ => At entries .check) (FailedAt codec id entries) := by
  have hM : Closed Any := traceMachine_closed
  induction es with
  | nil => exact hM.triple_pure fun _ _ h => h
  | cons e rest ih =>
    obtain ⟨he, hrest⟩ := List.cons_subset.mp hes
    refine triple_of_state fun t _ hat => triple_passRead (j := j) hpaths he (hnames e List.mem_cons_self) hat
      (fun v hno => ?_) fun c haccepts hat' => ?_
    · rw [if_pos (not_or.mp hno)]
      rfl
    · rw [if_neg (fun h => haccepts.elim h.1 h.2)]
      exact (ih hrest fun e he => hnames e (List.mem_cons_of_mem _ he)).pre fun _ _ ht => ht ▸ hat'

/-- A write is good right after a read that found the desired value. -/
theorem triple_anyWriteBit {e : IdleEntry} (he : e ∈ entries)
    (hname : isName e.disablePath = false) {c : String} (hdesired : trim c = e.desired)
    (hne : e.desired ≠ e.original) (hat : At entries π (t ++ [readEvent e.disablePath c])) :
    Triple Any (Shape entries) (· = t ++ [readEvent e.disablePath c])
      (writeBit e.disablePath e.original) (fun _ => At entries π) (fun _ => Clean entries) := by
  have hM : Closed Any := traceMachine_closed
  have hafter : ∀ x : Except IoError Unit,
      π.after ⟨.write e.disablePath (e.original ++ "\n"), x⟩ = π := fun x => by cases π <;> rfl
  refine hM.triple_bind (A := fun _ t' => Clean entries t' ∧
    (∃ ev ∈ t'.getLast?, announces ev = true) ∧ passOf t' = π) (hM.triple_ask ?_) fun x => ?_
  · rintro _ x _ _ rfl rfl
    have hclean : Clean entries (t ++ [readEvent e.disablePath c] ++
        [⟨.write e.disablePath (e.original ++ "\n"), x⟩]) :=
      hat.clean.snoc ⟨e, he, rfl, rfl, hne, t, c, rfl, hdesired⟩
    exact ⟨Or.inl hclean, hclean, ⟨_, List.getLast?_concat .., rfl⟩, by
      rw [passOf_snoc, hat.pass, hafter]⟩
  · cases x with
    | error x => exact hM.triple_throw fun _ _ h => h.1
    | ok u =>
      rw [ioResult_ok_bind]
      refine hM.triple_bind (triple_announcedRead hname) fun _ => ?_
      exact triple_ite (fun _ => hM.triple_throw fun _ _ h => h.clean)
        fun _ => hM.triple_pure fun _ _ h => h

include hpaths in
/-- The second pass writes each entry at most once. -/
theorem triple_anyRestoreWrite (hes : es ⊆ entries)
    (hnames : ∀ e ∈ es, isName e.disablePath = false) :
    Triple Any (Shape entries) (At entries .write) (restoreWrite codec id j es)
      (fun _ => At entries .write) (FailedAt codec id entries) := by
  have hM : Closed Any := traceMachine_closed
  induction es with
  | nil => exact hM.triple_pure fun _ _ h => h
  | cons e rest ih =>
    obtain ⟨he, hrest⟩ := List.cons_subset.mp hes
    have hname := hnames e List.mem_cons_self
    have hnext := ih hrest fun e he => hnames e (List.mem_cons_of_mem _ he)
    refine triple_of_state fun t _ hat => triple_passRead (j := j) hpaths he hname hat
      (fun v hno => ?_) fun c haccepts hat' => ?_
    · rw [if_pos (not_or.mp hno)]
      rfl
    · rw [if_neg (fun h => haccepts.elim h.1 h.2)]
      refine triple_ite (fun hchanged => ?_) fun _ => hnext.pre fun _ _ ht => ht ▸ hat'
      refine hM.triple_bind ((triple_anyWriteBit he hname hchanged.1
        (hchanged.1 ▸ hchanged.2) hat').conseq (fun _ _ h => h) (fun _ _ _ h => h)
        fun _ _ _ h => Or.inl h) fun _ => hnext

/-- The reads of the final pass. -/
def ReadBack (es : List IdleEntry) (reads : HostTrace) : Prop :=
  List.Forall₂ (fun e ev => ∃ c, ev = readEvent e.disablePath c ∧ trim c = e.original) es reads

include hpaths in
/-- The third pass reads every entry back. -/
theorem triple_anyRestoreVerify (hes : es ⊆ entries)
    (hnames : ∀ e ∈ es, isName e.disablePath = false) {t₀ : HostTrace} {done : List IdleEntry} :
    Triple Any (Shape entries)
      (fun t => (es = [] ∨ At entries .verify t) ∧ Clean entries t ∧
        ∃ reads, ReadBack done reads ∧ t = t₀ ++ reads)
      (restoreVerify codec id j es)
      (fun _ t => Clean entries t ∧ ∃ reads, ReadBack (done ++ es) reads ∧ t = t₀ ++ reads)
      (FailedAt codec id entries) := by
  have hM : Closed Any := traceMachine_closed
  induction es generalizing done with
  | nil =>
    rw [List.append_nil]
    exact hM.triple_pure fun _ _ h => h.2
  | cons e rest ih =>
    obtain ⟨he, hrest⟩ := List.cons_subset.mp hes
    have hnext := @ih hrest (fun e he => hnames e (List.mem_cons_of_mem _ he)) (done ++ [e])
    refine triple_of_state fun t _ ht => ?_
    obtain ⟨hat, _, reads, hreads, rfl⟩ := ht
    have hat := hat.resolve_left (List.cons_ne_nil _ _)
    refine triple_passRead (j := j) hpaths he (hnames e List.mem_cons_self) hat
      (fun v hno => ?_) fun c haccepts hat' => ?_
    · have hno : v ≠ e.original := hno
      rw [if_pos hno]
      rfl
    · have haccepts : trim c = e.original := haccepts
      rw [if_neg (not_not.mpr haccepts)]
      rw [List.append_assoc, List.singleton_append] at hnext
      refine hnext.pre ?_
      rintro _ _ rfl
      refine ⟨Or.inr hat', hat'.clean, reads ++ [readEvent e.disablePath c], ?_, ?_⟩
      · exact List.rel_append hreads (.cons ⟨c, rfl, haccepts⟩ .nil)
      · rw [List.append_assoc]

/-- The record of a stage, after calls that were all good. -/
theorem triple_anyRecord {P : HostTrace → Prop} (hclean : ∀ t, P t → Clean entries t) :
    Triple Any (Shape entries) P (storeJournal codec id j)
      (fun _ t' => ∃ t, P t ∧ t' = t ++ [⟨.writeJournal id j, .ok ()⟩] ∧ Clean entries t')
      (FailedAt codec id entries) := by
  refine (triple_anyStoreJournal ?_ ?_ ?_).conseq (fun _ _ h => h) ?_ fun _ _ _ h => h
  · exact fun t x h => Or.inl ((hclean t h).snoc trivial)
  · exact fun err t h _ => Or.inl (hclean t h)
  · exact fun err t h => Or.inl ((hclean t h).snoc trivial)
  · rintro _ _ _ ⟨t, h, rfl⟩
    exact ⟨t, h, rfl, (hclean t h).snoc trivial⟩

theorem Clean.stamp (h : Clean entries t) (a : Actor) (n : ℕ) :
    Clean entries (t ++ [⟨.actor, a⟩]) ∧ Clean entries (t ++ [⟨.actor, a⟩, ⟨.nowMillis, n⟩]) := by
  have hactor : Clean entries (t ++ [⟨.actor, a⟩]) := h.snoc trivial
  refine ⟨hactor, ?_⟩
  rw [← List.singleton_append, ← List.append_assoc]
  exact hactor.snoc trivial

/-- How a trace of a successful restoration ends: every entry is read once more and
found at its original, and then the outcome is recorded. -/
def Finished (id : String) (j : Journal) (t : HostTrace) : Prop :=
  ∃ (t₀ reads : HostTrace) (a : Actor) (n : ℕ) (j' : Journal), ReadBack j.entries reads ∧
    j'.stage = .restored ∧ j'.entries = j.entries ∧
    t = t₀ ++ reads ++ [⟨.actor, a⟩, ⟨.nowMillis, n⟩, ⟨.writeJournal id j', .ok ()⟩]

/-- The three passes of a restore, whatever its calls are answered. -/
theorem triple_anyRestore {root : PathBuf} (hpaths : (j.entries.map IdleEntry.disablePath).Nodup) :
    Triple Any (Shape j.entries) (· = []) (restore codec root id j)
      (fun _ t => Clean j.entries t ∧ Finished id j t) (FailedAt codec id j.entries) := by
  have hM : Closed Any := traceMachine_closed
  have hstart : At j.entries .check [] := ⟨clean_nil, (fun _ h => nomatch h), rfl⟩
  have hstamp : ∀ t, Clean j.entries t → ∀ (a : Actor) (n : ℕ), Shape j.entries (t ++ [⟨.actor, a⟩]) ∧
      Shape j.entries (t ++ [⟨.actor, a⟩, ⟨.nowMillis, n⟩]) :=
    fun t h a n => ⟨Or.inl (h.stamp a n).1, Or.inl (h.stamp a n).2⟩
  refine hM.triple_bind ((triple_anyValidateInventory root j.entries).conseq
    (fun t _ ht => (ht ▸ hstart : At j.entries .check t)) (fun _ _ _ h => h)
    fun _ _ _ h => Or.inl h) fun _ => triple_of_pure fun hnames => ?_
  refine hM.triple_bind ((triple_anyRestoreCheck hpaths (List.Subset.refl _) hnames).pre
    fun t _ ht => ht.2.2 rfl) fun _ => ?_
  refine triple_anyTransition (fun t h => hstamp t h.clean) fun a n => ?_
  obtain ⟨j', hj'⟩ : ∃ j', j' = j.push .restoring a n := ⟨_, rfl⟩
  rw [← hj']
  have hentries : j'.entries = j.entries := hj' ▸ Journal.push_entries ..
  rw [hentries]
  refine hM.triple_bind (triple_anyRecord ?_) fun _ => ?_
  · rintro _ ⟨t, h, rfl⟩
    exact (h.clean.stamp a n).2
  refine hM.triple_bind (A := fun _ => At j.entries .write) (Triple.pre
    (triple_anyRestoreWrite hpaths (List.Subset.refl _) hnames) ?_) fun _ => ?_
  · rintro _ _ ⟨_, ⟨t, h, rfl⟩, rfl, hclean⟩
    refine ⟨hclean, fun ev hev => ?_, ?_⟩
    · rw [List.getLast?_concat, Option.mem_some_iff] at hev
      exact hev ▸ rfl
    · have hpass : passOf (t ++ [⟨.actor, a⟩, ⟨.nowMillis, n⟩]) = .check := by
        rw [passOf, List.foldl_append, ← passOf, h.pass]
        rfl
      rw [passOf_snoc, hpass]
      rfl
  refine hM.triple_bind ((triple_anyValidateInventory root j.entries).conseq (fun _ _ h => h)
    (fun _ _ _ h => h.2) fun _ _ _ h => Or.inl h) fun _ => ?_
  refine triple_of_state fun t₀ _ ht₀ => ?_
  refine hM.triple_bind (A := fun _ t => Clean j.entries t ∧ ∃ reads,
    ReadBack ([] ++ j.entries) reads ∧ t = t₀ ++ reads) (Triple.pre
    (triple_anyRestoreVerify hpaths (List.Subset.refl _) hnames) ?_) fun _ => ?_
  · rintro _ _ rfl
    exact ⟨ht₀.2.1, ht₀.1, [], .nil, (List.append_nil _).symm⟩
  refine triple_anyTransition (fun t h => hstamp t h.1) fun a' n' => ?_
  refine (triple_anyRecord ?_).conseq (fun _ _ h => h) ?_ fun _ _ _ h => h
  · rintro _ ⟨t, h, rfl⟩
    exact (h.1.stamp a' n').2
  · rintro _ _ _ ⟨_, ⟨_, ⟨_, reads, hreads, rfl⟩, rfl⟩, rfl, hclean⟩
    refine ⟨hclean, t₀, reads, a', n', j'.push .restored a' n', hreads, Journal.push_stage .., ?_, ?_⟩
    · rw [Journal.push_entries, hentries]
    · simp

end Passes

end Snoozer.Benchctl
