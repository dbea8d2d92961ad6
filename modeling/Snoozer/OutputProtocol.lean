import Snoozer.AtomicOutput

/-! The calls that one `AtomicOutput` makes, whatever they are answered: a partial file of its own
gets the bytes the value has accepted, and is then renamed to the final path, removed, or left where
it is if it cannot be removed. -/
namespace Snoozer.WakeLatency
open Interactive Interactive.Fallible Interactive.Protocol
open Benchctl (PathBuf Bytes)

inductive OutputPhase where
  | preparing
  | reserved (partialPath : PathBuf) (inode : ℕ) (written : Bytes)
  | published (inode : ℕ) (written : Bytes)
  | gone (inode : ℕ)

open Classical in
/-- Which calls a value makes: until it has a partial file it touches no file at all, then only
this one, and nothing after the rename but the directory. -/
noncomputable def OutputRequest.next (request : OutputRequest) :
    OutputPhase → (op : FsOp) → FsAns op → Option OutputPhase
  | .preparing, .metadata _, _ | .preparing, .createDir _, _ | .preparing, .isDir _, _
  | .preparing, .openDir _, _ | .preparing, .syncDir _, _ => some .preparing
  | .preparing, .createNew path, (x : Except FsError ℕ) => match x with
    | .ok inode => if request.IsPartial path then some (.reserved path inode []) else none
    | .error _ => some .preparing
  | .reserved path inode written, .write i bytes, (x : Except FsError ℕ) =>
    if i = inode then
      match x with
      | .ok n => some (.reserved path inode (written ++ bytes.take n))
      | .error _ => some (.reserved path inode written)
    else
      none
  | .reserved path inode written, .syncFile i, _ =>
    if i = inode then some (.reserved path inode written) else none
  | .reserved path inode written, .rename source target, (x : Except FsError Unit) =>
    if source = path ∧ target = request.finalPath then
      match x with
      | .ok () => some (.published inode written)
      | .error _ => some (.reserved path inode written)
    else
      none
  | .reserved path inode written, .removeFile source, (x : Except FsError Unit) =>
    if source = path then
      match x with
      | .ok () | .error .notFound => some (.gone inode)
      | .error _ => some (.reserved path inode written)
    else
      none
  | .published inode written, .openDir _, _ | .published inode written, .syncDir _, _ =>
    some (.published inode written)
  | .gone inode, .write i _, _ => if i = inode then some (.gone inode) else none
  | _, _, _ => none

noncomputable def OutputRequest.protocol (request : OutputRequest) :
    Protocol FsOp FsAns OutputPhase :=
  ⟨request.next⟩

/-- How a value is left: with its rename, with its partial file removed, or with a partial file of
some first bytes. -/
def OutputEnd.Left (e : OutputEnd) (φ : OutputPhase) : Prop :=
  if e.published then
    φ = .published e.inode e.accepted ∧ e.result ≠ none ∧ e.kept = false
  else
    e.result ≠ some (.ok ()) ∧
      if e.kept then
        ∃ written, written <+: e.accepted ∧ φ = .reserved e.partialPath e.inode written
      else
        φ = .gone e.inode

section Follows

variable {request : OutputRequest} {path : PathBuf} {inode : ℕ} {written : Bytes}

/-- The write loop appends to the reserved file what it reports as written. -/
theorem writeRetried_reserved (bytes : Bytes) :
    request.protocol.Follows (writeRetried inode bytes) (.reserved path inode written) fun x φ =>
      match x with
      | .ok n => φ = .reserved path inode (written ++ bytes.take n)
      | .error _ => φ = .reserved path inode written := by
  apply follows_loop
  apply follows_perform
  intro x
  cases x with
  | ok n => exact ⟨_, if_pos rfl, follows_ret (follows_ret rfl)⟩
  | error e =>
    refine ⟨.reserved path inode written, if_pos rfl, ?_⟩
    cases e with
    | interrupted => exact follows_ret rfl
    | _ => exact follows_ret (follows_ret rfl)

/-- The write loop leaves a file that is gone as it is. -/
theorem writeRetried_gone (bytes : Bytes) :
    request.protocol.Follows (writeRetried inode bytes) (.gone inode) fun _ φ => φ = .gone inode := by
  apply follows_loop
  apply follows_perform
  intro x
  refine ⟨.gone inode, if_pos rfl, ?_⟩
  cases x with
  | ok n => exact follows_ret (follows_ret rfl)
  | error e =>
    cases e with
    | interrupted => exact follows_ret rfl
    | _ => exact follows_ret (follows_ret rfl)

/-- What is written and what stays in the buffer make up what was in it. -/
theorem flushBuffer_reserved (buffer : Bytes) (written : Bytes) :
    request.protocol.Follows (flushBuffer inode buffer) (.reserved path inode written) fun r φ =>
      ∃ flushed, buffer = flushed ++ r.2 ∧ φ = .reserved path inode (written ++ flushed) ∧
        (r.1 = .ok () → r.2 = []) := by
  induction buffer using flushBuffer.induct generalizing written with
  | case1 =>
    rw [flushBuffer, if_pos rfl]
    exact follows_ret ⟨[], rfl, by rw [List.append_nil], fun _ => rfl⟩
  | case2 buffer hbuffer ih =>
    rw [flushBuffer, if_neg hbuffer]
    apply follows_bind
    apply follows_mono (writeRetried_reserved buffer)
    intro x φ hφ
    cases x with
    | error e =>
      exact follows_ret ⟨[], rfl, by rw [hφ, List.append_nil], fun h => by cases h⟩
    | ok n =>
      cases n with
      | zero =>
        refine follows_ret ⟨[], rfl, ?_, fun h => by cases h⟩
        simpa using hφ
      | succ n =>
        rw [hφ]
        apply follows_mono (ih n (written ++ buffer.take (n + 1)))
        rintro r φ' ⟨flushed, hsplit, hφ', hempty⟩
        refine ⟨buffer.take (n + 1) ++ flushed, ?_, ?_, hempty⟩
        · rw [List.append_assoc, ← hsplit, List.take_append_drop]
        · rw [hφ', List.append_assoc]

/-- So does the flush of the buffer. -/
theorem flushBuffer_gone (buffer : Bytes) :
    request.protocol.Follows (flushBuffer inode buffer) (.gone inode) fun _ φ =>
      φ = .gone inode := by
  induction buffer using flushBuffer.induct with
  | case1 =>
    rw [flushBuffer, if_pos rfl]
    exact follows_ret rfl
  | case2 buffer hbuffer ih =>
    rw [flushBuffer, if_neg hbuffer]
    apply follows_bind
    apply follows_mono (writeRetried_gone buffer)
    rintro x φ rfl
    cases x with
    | error e => exact follows_ret rfl
    | ok n =>
      cases n with
      | zero => exact follows_ret rfl
      | succ n => exact ih n

/-- The value has its partial file; what its writes have accepted is in the file or in the buffer. -/
structure AtomicOutput.Open (request : OutputRequest) (path : PathBuf) (inode : ℕ)
    (accepted : Bytes) (output : AtomicOutput) (φ : OutputPhase) : Prop where
  finalPath : output.finalPath = request.finalPath
  partialPath : output.partialPath = path
  handle : output.writer.inode = inode
  unpublished : output.published = false
  phase : ∃ written, φ = .reserved path inode written ∧ written ++ output.writer.buffer = accepted

variable {output : AtomicOutput} {accepted : Bytes} {φ : OutputPhase}

/-- The value with another writer for the same file. -/
theorem AtomicOutput.Open.rewrite (h : output.Open request path inode accepted φ)
    {writer : BufWriter} {accepted' written : Bytes} (hinode : writer.inode = output.writer.inode)
    (hsplit : written ++ writer.buffer = accepted') :
    { output with writer := writer }.Open request path inode accepted'
      (.reserved path inode written) :=
  ⟨h.finalPath, h.partialPath, hinode.trans h.handle, h.unpublished, written, rfl, hsplit⟩

/-- A flush leaves the output open, with an empty buffer when it succeeds. -/
theorem writerFlush_open (h : output.Open request path inode accepted φ) :
    request.protocol.Follows output.writer.flush φ fun r φ' =>
      { output with writer := r.2 }.Open request path inode accepted φ' ∧
        (r.1 = .ok () → r.2.buffer = []) := by
  obtain ⟨written, rfl, hsplit⟩ := h.phase
  apply follows_bind
  rw [h.handle]
  apply follows_mono (flushBuffer_reserved output.writer.buffer written)
  rintro ⟨x, rest⟩ φ ⟨flushed, hbuffer, rfl, hempty⟩
  apply follows_ret
  refine ⟨h.rewrite h.handle.symm ?_, hempty⟩
  dsimp only at hbuffer ⊢
  rw [List.append_assoc, ← hbuffer, hsplit]

theorem flush_open (h : output.Open request path inode accepted φ) :
    request.protocol.Follows output.flush φ fun r φ' =>
      r.2.Open request path inode accepted φ' ∧ (r.1 = .ok () → r.2.writer.buffer = []) := by
  apply follows_bind
  apply follows_mono (writerFlush_open h)
  exact fun r φ' hr => follows_ret hr

theorem push_open (h : output.Open request path inode accepted φ) (bytes : Bytes) :
    { output with writer := output.writer.push bytes }.Open request path inode
      (accepted ++ acceptedBytes bytes (.ok bytes.length)) φ := by
  obtain ⟨written, rfl, hsplit⟩ := h.phase
  have hinode : (output.writer.push bytes).inode = output.writer.inode := rfl
  apply h.rewrite hinode
  rw [BufWriter.push, ← List.append_assoc, hsplit, acceptedBytes, List.take_length]

/-- A write past the buffer leaves the output open. -/
theorem writeDirect_open (h : output.Open request path inode accepted φ) (bytes : Bytes)
    (hempty : bufferCapacity ≤ bytes.length → output.writer.buffer = []) :
    request.protocol.Follows (output.writer.writeDirect bytes) φ fun r φ' =>
      { output with writer := r.2 }.Open request path inode
        (accepted ++ acceptedBytes bytes r.1) φ' := by
  unfold BufWriter.writeDirect
  split
  · next hlarge =>
    obtain ⟨written, rfl, hsplit⟩ := h.phase
    rw [hempty hlarge, List.append_nil] at hsplit
    subst hsplit
    apply follows_perform
    intro x
    cases x with
    | ok n =>
      refine ⟨.reserved path inode (written ++ bytes.take n), if_pos h.handle, ?_⟩
      apply follows_ret
      apply h.rewrite rfl
      rw [hempty hlarge, List.append_nil, acceptedBytes]
    | error e =>
      refine ⟨.reserved path inode written, if_pos h.handle, ?_⟩
      apply follows_ret
      apply h.rewrite rfl
      rw [hempty hlarge, acceptedBytes]
  · exact follows_ret (push_open h bytes)

/-- What the buffer has no room for goes past it only when it is empty. -/
theorem write_open (h : output.Open request path inode accepted φ) (bytes : Bytes) :
    request.protocol.Follows (output.write bytes) φ fun r φ' =>
      r.2.Open request path inode (accepted ++ acceptedBytes bytes r.1) φ' := by
  apply follows_bind
  suffices hwrite : request.protocol.Follows (output.writer.write bytes) φ fun r φ' =>
      { output with writer := r.2 }.Open request path inode
        (accepted ++ acceptedBytes bytes r.1) φ' by
    exact follows_mono hwrite fun r φ' hr => follows_ret hr
  unfold BufWriter.write
  split
  · exact follows_ret (push_open h bytes)
  · next hfull =>
    split
    · apply follows_bind
      apply follows_mono (writerFlush_open h)
      rintro ⟨x, writer⟩ φ' ⟨hopen, hempty⟩
      cases x with
      | error e =>
        apply follows_ret
        rw [acceptedBytes, List.append_nil]
        exact hopen
      | ok u => exact writeDirect_open hopen bytes fun _ => hempty rfl
    · next hfits =>
      apply writeDirect_open h
      intro hlarge
      have hspare : output.writer.spareCapacity = bytes.length := by omega
      have hlength : output.writer.buffer.length = 0 := by
        have hcapacity : 0 < bufferCapacity := by decide
        unfold BufWriter.spareCapacity at hspare
        omega
      exact List.length_eq_zero_iff.mp hlength

/-- After the removal, dropping the writer leaves the file gone. -/
theorem dropWriter_gone (h : output.Open request path inode accepted φ)
    {result : Option (Except FsError Unit)} (hresult : result ≠ some (.ok ())) :
    request.protocol.Follows
      ((output.dropWriter false).bind fun kept => .ret (output.leave result accepted kept))
      (.gone inode) OutputEnd.Left := by
  apply follows_bind
  apply follows_bind
  rw [h.handle]
  apply follows_mono (flushBuffer_gone output.writer.buffer)
  rintro r φ rfl
  apply follows_ret
  apply follows_ret
  rw [AtomicOutput.leave, h.unpublished, h.handle]
  exact ⟨hresult, rfl⟩

/-- What is still in the buffer goes into the file that is left. -/
theorem dropWriter_kept (h : output.Open request path inode accepted (.reserved path inode written))
    {result : Option (Except FsError Unit)} (hresult : result ≠ some (.ok ())) :
    request.protocol.Follows
      ((output.dropWriter true).bind fun kept => .ret (output.leave result accepted kept))
      (.reserved path inode written) OutputEnd.Left := by
  obtain ⟨_, hphase, hsplit⟩ := h.phase
  cases hphase
  apply follows_bind
  apply follows_bind
  rw [h.handle]
  apply follows_mono (flushBuffer_reserved output.writer.buffer written)
  rintro ⟨x, rest⟩ φ ⟨flushed, hbuffer, rfl, -⟩
  apply follows_ret
  apply follows_ret
  rw [AtomicOutput.leave, h.unpublished, h.handle, h.partialPath]
  refine ⟨hresult, written ++ flushed, ⟨rest, ?_⟩, rfl⟩
  dsimp only at hbuffer ⊢
  rw [List.append_assoc, ← hbuffer, hsplit]

/-- A value that is not published loses its partial file, unless that cannot be removed. -/
theorem ends_open (h : output.Open request path inode accepted φ)
    {result : Option (Except FsError Unit)} (hresult : result ≠ some (.ok ())) :
    request.protocol.Follows (output.ends result accepted) φ OutputEnd.Left := by
  obtain ⟨written, rfl, -⟩ := h.phase
  unfold AtomicOutput.ends AtomicOutput.drop
  rw [h.unpublished, if_neg (by decide), Prog.bind_assoc]
  apply follows_perform
  intro x
  rcases x with e | u
  · cases e with
    | notFound => exact ⟨.gone inode, if_pos h.partialPath, dropWriter_gone h hresult⟩
    | _ =>
      exact ⟨.reserved path inode written, if_pos h.partialPath, dropWriter_kept h hresult⟩
  · exact ⟨.gone inode, if_pos h.partialPath, dropWriter_gone h hresult⟩

/-- After the rename nothing is left to write. -/
theorem ends_published (output : AtomicOutput) {written : Bytes} (hinode : output.writer.inode = inode)
    (hpublished : output.published = true) (hempty : output.writer.buffer = [])
    (result : Except FsError Unit) :
    request.protocol.Follows (output.ends (some result) written) (.published inode written)
      OutputEnd.Left := by
  unfold AtomicOutput.ends AtomicOutput.drop
  apply follows_bind
  rw [hpublished, if_pos rfl, AtomicOutput.dropWriter, hempty, flushBuffer, if_pos rfl]
  apply follows_ret
  apply follows_ret
  rw [AtomicOutput.leave, hinode, hpublished]
  exact ⟨rfl, (nomatch ·), rfl⟩

theorem obeys_orThrow {α : Type} {P : OutputPhase → Prop} (x : Except FsError α) :
    request.protocol.Obeys P (orThrow x) (fun _ => P) fun _ => P := by
  cases x with
  | ok a => exact obeys_pure fun _ h => h
  | error e => exact obeys_throw fun _ h => h

/-- Syncing a published file changes nothing. -/
theorem syncPublished_follows {written : Bytes} :
    request.protocol.Follows output.syncPublished.run (.published inode written) fun _ φ =>
      φ = .published inode written := by
  have hask {op : FsOp} (hop : ∀ x, request.next (.published inode written) op x =
      some (.published inode written)) :
      request.protocol.Obeys (ε := FsError) (· = .published inode written) (ask op)
        (fun _ => (· = .published inode written)) fun _ => (· = .published inode written) := by
    apply obeys_ask
    rintro φ x rfl
    exact ⟨_, hop x, rfl⟩
  have hobeys : request.protocol.Obeys (· = .published inode written) output.syncPublished
      (fun _ => (· = .published inode written)) fun _ => (· = .published inode written) := by
    apply (hask fun _ => rfl).bind
    intro x
    apply (obeys_orThrow x).bind
    intro handle
    apply (hask fun _ => rfl).bind
    exact fun x => obeys_orThrow x
  apply follows_mono (hobeys _ rfl)
  rintro (e | u) φ hφ
  · exact hφ
  · exact hφ

/-- From `finish` to the end. -/
theorem finish_open (h : output.Open request path inode accepted φ) :
    request.protocol.Follows (output.finish.bind fun r => r.2.ends (some r.1) accepted) φ
      OutputEnd.Left := by
  unfold AtomicOutput.finish
  rw [Prog.bind_assoc]
  apply follows_bind
  apply follows_mono (flush_open h)
  rintro ⟨x, output⟩ φ ⟨hopen, hempty⟩
  cases x with
  | error e => exact ends_open hopen (by intro he; cases he)
  | ok u =>
    obtain ⟨written, rfl, hsplit⟩ := hopen.phase
    have hnothing := hempty rfl
    dsimp only at hnothing hsplit hopen ⊢
    rw [hnothing, List.append_nil] at hsplit
    subst hsplit
    apply follows_call
    intro x
    refine ⟨.reserved path inode written, if_pos hopen.handle, ?_⟩
    cases x with
    | error e => exact ends_open hopen (by intro he; cases he)
    | ok u =>
      apply follows_call
      intro x
      cases x with
      | error e =>
        refine ⟨.reserved path inode written, if_pos ⟨hopen.partialPath, hopen.finalPath⟩, ?_⟩
        exact ends_open hopen (by intro he; cases he)
      | ok u =>
        refine ⟨.published inode written, if_pos ⟨hopen.partialPath, hopen.finalPath⟩, ?_⟩
        change request.protocol.Follows ((output.syncPublished.run.bind fun x =>
          .ret (x, { output with published := true })).bind fun r => r.2.ends (some r.1) written)
          _ _
        apply follows_bind
        apply follows_bind
        apply follows_mono syncPublished_follows
        rintro result φ rfl
        exact follows_ret (ends_published { output with published := true } hopen.handle rfl
          hnothing result)

/-- Whatever is done with an open output, it is left in one of the ways of its protocol. -/
theorem use_follows (use : OutputUse) (h : output.Open request path inode accepted φ) :
    request.protocol.Follows (use.run output accepted) φ OutputEnd.Left := by
  induction use generalizing output accepted φ with
  | drop => exact ends_open h (by intro he; cases he)
  | finish => exact finish_open h
  | write bytes next ih =>
    apply follows_bind
    apply follows_mono (write_open h bytes)
    exact fun r φ' hr => ih r.1 hr
  | flush next ih =>
    apply follows_bind
    apply follows_mono (flush_open h)
    exact fun r φ' hr => ih r.1 hr.1

/-- Calls that leave every file alone. -/
def TouchesNoFile : FsOp → Prop
  | .metadata _ | .createDir _ | .isDir _ | .openDir _ | .syncDir _ => True
  | _ => False

theorem makes_orThrow {α : Type} (x : Except FsError α) : Makes TouchesNoFile (orThrow x) := by
  cases x with
  | ok a => exact makes_pure a
  | error e => exact makes_throw e

theorem makes_awaitCurrentDir : Makes TouchesNoFile awaitCurrentDir := by
  apply Makes.iterate
  apply (makes_ask trivial).bind
  intro x
  cases x with
  | ok u => exact makes_pure _
  | error e =>
    cases e with
    | notFound => exact makes_pure _
    | _ => exact makes_throw _

/-- Looking for missing directories touches no file. -/
theorem makes_missingDirectories (absolute : Bool) (names : List String) :
    Makes TouchesNoFile (missingDirectories absolute names) := by
  induction names with
  | nil =>
    apply Makes.ite
    · apply (makes_ask trivial).bind
      intro x
      cases x with
      | ok u => exact makes_pure _
      | error e =>
        cases e with
        | notFound => exact makes_awaitCurrentDir.bind fun _ => makes_pure _
        | _ => exact makes_throw _
    · exact makes_awaitCurrentDir.bind fun _ => makes_pure _
  | cons name rest ih =>
    apply (makes_ask trivial).bind
    intro x
    cases x with
    | ok u => exact makes_pure _
    | error e =>
      cases e with
      | notFound => exact ih.bind fun _ => makes_pure _
      | _ => exact makes_throw _

theorem makes_retry (path : PathBuf) (e : FsError) :
    Makes TouchesNoFile (do
      if ← ask (FsOp.isDir path) then
        return ()
      else
        throw e : FsFallible FsError Unit) :=
  (makes_ask trivial).bind fun _ => (makes_pure _).ite (makes_throw _)

theorem makes_makeDir (path : PathBuf) {missing : FsFallible FsError Unit}
    (hmissing : Makes TouchesNoFile missing) : Makes TouchesNoFile (makeDir path missing) := by
  apply (makes_ask trivial).bind
  intro x
  cases x with
  | ok u => exact makes_pure _
  | error e =>
    cases e with
    | notFound => exact hmissing
    | _ => exact makes_retry path _

/-- Making directories touches no file. -/
theorem makes_createDirAllAt (absolute : Bool) (names : List String) :
    Makes TouchesNoFile (createDirAllAt absolute names) := by
  induction names with
  | nil => exact (makes_makeDir _ (makes_throw _)).ite (makes_pure _)
  | cons name rest ih =>
    apply makes_makeDir
    apply ih.bind
    intro _
    apply (makes_ask trivial).bind
    intro x
    cases x with
    | ok u => exact makes_pure _
    | error e => exact makes_retry _ e

theorem makes_syncParents (missing : List PathBuf) : Makes TouchesNoFile (syncParents missing) := by
  induction missing with
  | nil => exact makes_pure _
  | cons directory rest ih =>
    apply (makes_ask trivial).bind
    intro x
    apply (makes_orThrow x).bind
    intro handle
    apply (makes_ask trivial).bind
    intro x
    exact (makes_orThrow x).bind fun _ => ih

theorem makes_createParentDurably (parent : PathBuf) :
    Makes TouchesNoFile (createParentDurably parent) := by
  apply (makes_missingDirectories _ _).bind
  intro missing
  apply (makes_createDirAllAt _ _).bind
  exact fun _ => makes_syncParents missing

/-- Making the parent durable comes before the reservation. -/
theorem createParentDurably_obeys (parent : PathBuf) :
    request.protocol.Obeys (· = .preparing) (createParentDurably parent)
      (fun _ => (· = .preparing)) fun _ => (· = .preparing) := by
  apply obeys_makes _ (makes_createParentDurably parent)
  rintro op φ x hop rfl
  refine ⟨.preparing, ?_, rfl⟩
  cases op with
  | metadata path => rfl
  | createDir path => rfl
  | isDir path => rfl
  | openDir path => rfl
  | syncDir handle => rfl
  | _ => exact hop.elim

/-- What is reserved is a file of the value's own. -/
theorem reserve_obeys (left offset : ℕ) :
    request.protocol.Obeys (· = .preparing)
      (AtomicOutput.reserve request.finalPath request.processId request.firstId left offset)
      (fun output φ => ∃ path inode, output.Open request path inode [] φ)
      fun _ => (· = .preparing) := by
  induction left generalizing offset with
  | zero => exact obeys_throw fun _ h => h
  | succ left ih =>
    have hpath : request.protocol.Obeys (· = .preparing)
        (orThrow (partialOutputPath request.finalPath request.processId
          ((request.firstId + offset) % 2 ^ 64)))
        (fun path φ => φ = .preparing ∧ request.IsPartial path) fun _ => (· = .preparing) := by
      cases hbeside : partialOutputPath request.finalPath request.processId
          ((request.firstId + offset) % 2 ^ 64) with
      | error e => exact obeys_throw fun _ h => h
      | ok path => exact obeys_pure fun _ h => ⟨h, _, hbeside⟩
    apply hpath.bind
    intro path
    have hcreate : request.protocol.Obeys (ε := FsError) (fun φ => φ = .preparing ∧ request.IsPartial path)
        (ask (FsOp.createNew path))
        (fun (x : Except FsError ℕ) φ => match x with
          | .ok inode => φ = .reserved path inode []
          | .error _ => φ = .preparing) fun _ => (· = .preparing) := by
      apply obeys_ask
      rintro φ x ⟨rfl, hbeside⟩
      cases x with
      | ok inode => exact ⟨_, if_pos hbeside, rfl⟩
      | error e => exact ⟨_, rfl, rfl⟩
    apply hcreate.bind
    intro x
    cases x with
    | ok inode =>
      apply obeys_pure
      intro φ hφ
      exact ⟨path, inode, rfl, rfl, rfl, rfl, [], hφ, rfl⟩
    | error e =>
      cases e with
      | alreadyExists => exact ih (offset + 1)
      | _ => exact obeys_throw fun _ h => h

/-- A value that could not be created has touched no file. -/
def SessionLeft : Except FsError OutputEnd → OutputPhase → Prop
  | .ok e, φ => e.Left φ
  | .error _, φ => φ = .preparing

/-- A session from its preparation to its end. -/
theorem session_follows (request : OutputRequest) :
    request.protocol.Follows request.session.run .preparing SessionLeft := by
  have hcreate : request.protocol.Obeys (· = .preparing)
      (AtomicOutput.create request.finalPath request.processId request.firstId)
      (fun output φ => ∃ path inode, output.Open request path inode [] φ)
      fun _ => (· = .preparing) :=
    (createParentDurably_obeys _).bind fun _ => reserve_obeys _ _
  have hsession : request.protocol.Obeys (· = .preparing) request.session OutputEnd.Left
      fun _ => (· = .preparing) := by
    apply hcreate.bind
    rintro output φ ⟨path, inode, hopen⟩
    apply follows_bind
    apply follows_mono (use_follows request.use hopen)
    exact fun e φ' he => follows_ret he
  apply follows_mono (hsession _ rfl)
  rintro (e | e) φ hφ
  · exact hφ
  · exact hφ

end Follows

end Snoozer.WakeLatency
