import Snoozer.BuildProvenance
import Snoozer.CpuIdleInventory
import Mathlib.Data.List.Destutter
import Mathlib.Data.List.TakeWhile
import Mathlib.Data.String.Basic

/-! Which receipts of `cargo_bench` Benchctl accepts when it runs the benchmark later. What the build
checks is most of what `verify_identity` asks for again; the rest is listed here. -/
namespace Snoozer.Benchctl
open Interactive Interactive.Fallible Results

theorem featuresUnordered_eq_false {features : List String} :
    featuresUnordered features = false ↔ features.IsChain (· < ·) := by
  induction features with
  | nil => exact iff_of_true rfl List.isChain_nil
  | cons a rest ih =>
    cases rest with
    | nil => exact iff_of_true rfl (List.isChain_singleton a)
    | cons b rest =>
      rw [featuresUnordered, Bool.or_eq_false_iff, decide_eq_false_iff_not, ih,
        List.isChain_cons_cons]
      exact and_congr_left fun _ => String.not_le

/-- Sorted features without repetition stand in strict order. -/
theorem featuresUnordered_normalizeFeatures (features : List String) :
    featuresUnordered (normalizeFeatures features) = false := by
  rw [featuresUnordered_eq_false]
  have hapart : (normalizeFeatures features).IsChain (· ≠ ·) := List.isChain_destutter _ _
  have hsorted : (normalizeFeatures features).Pairwise (· ≤ ·) :=
    List.Pairwise.sublist (List.destutter_sublist _ _) (List.pairwise_insertionSort (· ≤ ·) features)
  rw [List.isChain_iff_getElem]
  intro i hi
  have hne := List.isChain_iff_getElem.mp hapart i hi
  have hle := List.isChain_iff_getElem.mp hsorted.isChain i hi
  exact lt_of_le_of_ne hle hne

theorem mem_destutter' {a x : String} {features : List String} :
    x ∈ features.destutter' (· ≠ ·) a ↔ x = a ∨ x ∈ features := by
  induction features generalizing a with
  | nil => simp
  | cons b rest ih =>
    rw [List.destutter'_cons]
    split
    · rw [List.mem_cons, ih, List.mem_cons]
    · next hsame =>
      rw [ih, List.mem_cons, not_not.mp hsame]
      exact (or_iff_right_of_imp Or.inl).symm

theorem mem_normalizeFeatures {features : List String} {feature : String} :
    feature ∈ normalizeFeatures features ↔ feature ∈ features := by
  have hkept : ∀ sorted : List String,
      feature ∈ sorted.destutter (· ≠ ·) ↔ feature ∈ sorted := by
    intro sorted
    cases sorted with
    | nil => exact Iff.rfl
    | cons a rest => rw [List.destutter_cons', mem_destutter', List.mem_cons]
  rw [normalizeFeatures, hkept, List.mem_insertionSort]

/-- The lines of a text have no characters of their own. -/
theorem mem_of_mem_linesFrom {text line : List Char} {l : String} (h : l ∈ linesFrom line text)
    {c : Char} (hc : c ∈ l.toList) : c ∈ line ∨ c ∈ text := by
  induction text generalizing line with
  | nil =>
    rw [linesFrom] at h
    split at h
    · cases h
    · rw [List.mem_singleton.mp h, String.toList_ofList] at hc
      exact Or.inl (List.mem_reverse.mp hc)
  | cons d rest ih =>
    rw [linesFrom] at h
    split at h
    · rcases List.mem_cons.mp h with rfl | h
      · left
        unfold endLine at hc
        split at hc
        · rw [String.toList_ofList] at hc
          exact List.mem_cons_of_mem _ (List.mem_reverse.mp hc)
        · rw [String.toList_ofList] at hc
          exact List.mem_reverse.mp hc
      · rcases ih h with hline | hrest
        · cases hline
        · exact Or.inr (List.mem_cons_of_mem _ hrest)
    · rcases ih h with hline | hrest
      · rcases List.mem_cons.mp hline with rfl | hline
        · exact Or.inr List.mem_cons_self
        · exact Or.inl hline
      · exact Or.inr (List.mem_cons_of_mem _ hrest)

/-- A text with a character that is not white space does not trim to nothing. -/
theorem trim_ne_empty {text : String} {c : Char} (hc : c ∈ text.toList)
    (hblank : isWhiteSpace c = false) : trim text ≠ "" := by
  have hkept {chars : List Char} (hmem : c ∈ chars) : c ∈ chars.dropWhile isWhiteSpace := by
    rw [← List.takeWhile_append_dropWhile (p := isWhiteSpace) (l := chars)] at hmem
    rcases List.mem_append.mp hmem with hmem | hmem
    · have hblank' : isWhiteSpace c = true := List.mem_takeWhile_imp hmem
      rw [hblank] at hblank'
      cases hblank'
    · exact hmem
  have hmem := List.mem_reverse.mpr (hkept (List.mem_reverse.mpr (hkept hc)))
  intro hempty
  rw [trim, String.ofList_eq_empty_iff] at hempty
  rw [hempty] at hmem
  cases hmem

section Load

variable {codec : Codec} {look : (op : HostOp) → Option (HostAns op)} {receipt : BuildReceipt}

/-- A file is read and its bytes have the digest. -/
def DigestRead (codec : Codec) (look : (op : HostOp) → Option (HostAns op)) (path : PathBuf)
    (digest : String) : Prop :=
  ∃ bytes, look (.readFile path) = some (.ok bytes) ∧ codec.hexDigest bytes = digest

theorem yields_fileDigest {path : PathBuf} {operation digest : String} :
    Yields look (fileDigest codec path operation) digest ↔ DigestRead codec look path digest := by
  unfold fileDigest DigestRead
  simp only [yields_bind, yields_ask, yields_ioResult, yields_pure]
  constructor
  · rintro ⟨x, hx, bytes, rfl, hdigest⟩
    exact ⟨bytes, hx, hdigest⟩
  · rintro ⟨bytes, hx, hdigest⟩
    exact ⟨.ok bytes, hx, bytes, rfl, hdigest⟩

/-- A stored receipt is accepted when its fields are whole and its digests are those of what is
read. -/
theorem yields_verifyIdentity {u : Unit} :
    Yields look (receipt.verifyIdentity codec) u ↔
      receipt.version = receiptVersion ∧ receipt.sourceClean = true ∧
      receipt.fieldsInvalid codec = false ∧
      (∃ exe, look .currentExe = some (.ok exe) ∧
        DigestRead codec look exe receipt.benchctlExecutableSha256) ∧
      receipt.identityDigest codec = receipt.buildId := by
  unfold BuildReceipt.verifyIdentity
  rw [yields_guard, yields_guard, yields_guard, yields_bind]
  simp only [yields_ask, yields_bind, yields_ioResult, yields_fileDigest, yields_guard, yields_pure,
    ne_eq, not_not, Bool.not_eq_true, Bool.not_eq_true', Bool.not_eq_false]
  constructor
  · rintro ⟨hversion, hclean, hfields, x, hx, exe, rfl, digest, hread, rfl, hid, -⟩
    exact ⟨hversion, hclean, hfields, ⟨exe, hx, hread⟩, hid⟩
  · rintro ⟨hversion, hclean, hfields, ⟨exe, hx, hread⟩, hid⟩
    exact ⟨hversion, hclean, hfields, .ok exe, hx, exe, rfl, _, hread, rfl, hid, trivial⟩

/-- `load` accepts a receipt: its file is read back to it, its identity passes, and the executable
has the digest. -/
theorem yields_loadReceipt {path : PathBuf} :
    Yields look (loadReceipt codec path) receipt ↔
      (∃ bytes, look (.readFile path) = some (.ok bytes) ∧
        codec.parseReceipt bytes = .ok receipt) ∧
      Yields look (receipt.verifyIdentity codec) () ∧
      DigestRead codec look receipt.executable receipt.executableSha256 := by
  unfold loadReceipt parseReceipt BuildReceipt.verify
  simp only [yields_ask, yields_bind, yields_ioResult, yields_fileDigest, yields_guard, yields_pure,
    yields_ofExcept, mapError_eq_ok, ne_eq, not_not]
  constructor
  · rintro ⟨x, hx, bytes, rfl, receipt', hparse, _, ⟨_, hidentity, _, hread, rfl, -⟩, rfl⟩
    exact ⟨⟨bytes, hx, hparse⟩, hidentity, hread⟩
  · rintro ⟨⟨bytes, hx, hparse⟩, hidentity, hread⟩
    exact ⟨.ok bytes, hx, bytes, rfl, receipt, hparse, (),
      ⟨(), hidentity, _, hread, rfl, trivial⟩, rfl⟩

end Load

section Stored

variable {codec : Codec} {request : BuildRequest} {receipt : BuildReceipt} {t : List CargoEvent}

/-- What the build takes from others without a check of its own. -/
structure BuildReceipt.Complete (receipt : BuildReceipt) : Prop where
  commit : receipt.sourceCommit ≠ ""
  lockfile : receipt.lockfileSha256 ≠ ""
  package : receipt.packageId ≠ ""
  toolchain : receipt.rustupToolchain ≠ ""
  triple : receipt.targetTriple ≠ ""
  executable : receipt.executable.absolute = true

/-- A certified receipt names a compiler. -/
theorem Certified.rustc_ne_empty (h : Certified codec request receipt t) : receipt.rustc ≠ "" := by
  obtain ⟨rustc, hrustc, hseen⟩ := h.toolchain
  rw [← hrustc]
  obtain ⟨line, hline, hhost⟩ := List.exists_of_findSome?_eq_some hseen.host
  have hstarts : "host: ".toList <+: line.toList := by
    unfold stripPrefix at hhost
    split at hhost
    · next hstarts => exact List.isPrefixOf_iff_prefix.mp hstarts
    · cases hhost
  have hmem : 'h' ∈ line.toList := hstarts.subset (by decide)
  rcases mem_of_mem_linesFrom hline hmem with hnone | hmem
  · cases hnone
  · exact trim_ne_empty hmem (by decide)

/-- The fields of a certified receipt are valid when the text fields among them are filled. -/
theorem Certified.fieldsInvalid_eq_false (h : Certified codec request receipt t)
    (hcanonical : ∀ path path', (⟨.canonicalize path, .ok path'⟩ : CargoEvent) ∈ t →
      path'.absolute = true) :
    receipt.fieldsInvalid codec = false ↔ receipt.Complete := by
  obtain ⟨hbench, hnonempty, hfeatures, hnormal⟩ := h.requested
  obtain ⟨-, -, hprofile, hversion, -⟩ := h.written
  obtain ⟨checkout, -, htracked⟩ := h.locked
  obtain ⟨path, hrepository⟩ := h.located.repository
  have hmanifest := hcanonical _ _ h.located.manifest
  have hroot := hcanonical _ _ hrepository
  have hinside := htracked.inside
  have hlockfile : receipt.lockfilePath.absolute = true := by
    rw [PathBuf.startsWith, Bool.and_eq_true, beq_iff_eq] at hinside
    exact hinside.1.trans hroot
  have hnamed : receipt.features.any String.isEmpty = false := by
    rw [hnormal, List.any_eq_false]
    intro feature hmem hempty
    rw [String.isEmpty_iff.mp hempty] at hmem
    exact hfeatures (mem_normalizeFeatures.mp hmem)
  have hsorted := featuresUnordered_normalizeFeatures request.features
  rw [← hnormal] at hsorted
  dsimp only at hmanifest hroot
  unfold BuildReceipt.fieldsInvalid
  rw [hprofile, hversion, hbench, hmanifest, hroot, hlockfile, hinside, hnamed, hsorted]
  have hrustc := h.rustc_ne_empty
  simp only [ne_eq, not_true_eq_false, decide_false, Bool.false_or, Bool.not_true,
    Bool.or_false, Bool.or_eq_false_iff, String.isEmpty_eq_false_iff, Bool.not_eq_false',
    hnonempty, hrustc, not_false_eq_true, true_and, and_true]
  constructor
  · rintro ⟨⟨⟨⟨⟨hpackage, hcommit⟩, hlock⟩, htoolchain⟩, htriple⟩, hexecutable⟩
    exact ⟨hcommit, hlock, hpackage, htoolchain, htriple, hexecutable⟩
  · rintro ⟨hcommit, hlock, hpackage, htoolchain, htriple, hexecutable⟩
    exact ⟨⟨⟨⟨⟨hpackage, hcommit⟩, hlock⟩, htoolchain⟩, htriple⟩, hexecutable⟩

/-- Git is asked as the given user when the caller is root. -/
theorem answers_gitStdoutAs {t : List CargoEvent} {repository : PathBuf} {arguments : List String}
    {uid gid : ℕ} {text : String} :
    Answers (gitStdoutAs repository arguments uid gid) t (.ok text) ↔
      ∃ euid e, Printed (gitUser euid uid gid) "git" (["-C", repository.display] ++ arguments) text e ∧
        t = [⟨.geteuid, euid⟩, e] := by
  unfold gitStdoutAs
  rw [answers_ask_bind]
  constructor
  · rintro ⟨euid, rest, h, rfl⟩
    obtain ⟨x, rest, h₁, rfl⟩ := answers_ask_bind.mp h
    obtain ⟨output, h₂, rfl⟩ := answers_orIo_bind.mp h₁
    obtain ⟨hsuccess, h₃⟩ := answers_guard.mp h₂
    obtain ⟨success, status, stdout⟩ := output
    cases stdout with
    | none => exact absurd h₃ answers_throw
    | some text' =>
      obtain ⟨rfl, rfl⟩ := answers_pure.mp h₃
      have hsuccess : success = true := by simpa using hsuccess
      subst hsuccess
      exact ⟨euid, _, ⟨status, rfl⟩, rfl⟩
  · rintro ⟨euid, e, ⟨status, rfl⟩, rfl⟩
    refine ⟨euid, [_], answers_ask_bind.mpr ⟨_, [], answers_orIo_bind.mpr ⟨_, ?_, rfl⟩, rfl⟩, rfl⟩
    exact answers_guard.mpr ⟨by simp, answers_pure.mpr ⟨rfl, rfl⟩⟩

/-- The checkout of the receipt, as a later command sees it. -/
def CheckoutAgrees (codec : Codec) (receipt : BuildReceipt) (uid gid : ℕ) (t : List CargoEvent) :
    Prop :=
  ∃ euid head euid' clean text bytes,
    t = [⟨.geteuid, euid⟩, head, ⟨.geteuid, euid'⟩, clean,
      ⟨.readFile receipt.lockfilePath, .ok bytes⟩] ∧
    Printed (gitUser euid uid gid) "git" (["-C", receipt.repository.display] ++ revParseHead) text
      head ∧
    Printed (gitUser euid' uid gid) "git" (["-C", receipt.repository.display] ++ statusPorcelain) ""
      clean ∧
    trim text = receipt.sourceCommit ∧ codec.hexDigest bytes = receipt.lockfileSha256

/-- The checkout is accepted when it agrees with the receipt. -/
theorem answers_verifyCheckoutAs {t : List CargoEvent} {uid gid : ℕ} :
    Answers (receipt.verifyCheckoutAs codec uid gid) t (.ok ()) ↔
      CheckoutAgrees codec receipt uid gid t := by
  unfold BuildReceipt.verifyCheckoutAs
  rw [answers_bind]
  constructor
  · rintro ⟨_, rest, text, hcommand, h, rfl⟩
    obtain ⟨euid, head, hhead, rfl⟩ := answers_gitStdoutAs.mp hcommand
    obtain ⟨hcommit, h₁⟩ := answers_guard.mp h
    obtain ⟨_, rest, status, hquery, h₂, rfl⟩ := answers_bind.mp h₁
    obtain ⟨euid', clean, hclean, rfl⟩ := answers_gitStdoutAs.mp hquery
    obtain ⟨hempty, h₃⟩ := answers_guard.mp h₂
    obtain ⟨_, rest, digest, hlock, h₄, rfl⟩ := answers_bind.mp h₃
    obtain ⟨bytes, hdigest, rfl⟩ := answers_cargoFileDigest.mp hlock
    obtain ⟨hsame, h₅⟩ := answers_guard.mp h₄
    obtain ⟨rfl, -⟩ := answers_pure.mp h₅
    rw [not_not.mp hempty] at hclean
    exact ⟨euid, head, euid', clean, text, bytes, rfl, hhead, hclean, not_not.mp hcommit,
      hdigest.trans (not_not.mp hsame)⟩
  · rintro ⟨euid, head, euid', clean, text, bytes, rfl, hhead, hclean, hcommit, hdigest⟩
    refine ⟨_, _, text, answers_gitStdoutAs.mpr ⟨euid, head, hhead, rfl⟩, ?_, rfl⟩
    refine answers_guard.mpr ⟨not_not.mpr hcommit, answers_bind.mpr ⟨_, _, "",
      answers_gitStdoutAs.mpr ⟨euid', clean, hclean, rfl⟩, ?_, rfl⟩⟩
    refine answers_guard.mpr ⟨not_not.mpr rfl, answers_bind.mpr ⟨_, _, _,
      answers_cargoFileDigest.mpr ⟨bytes, hdigest, rfl⟩, ?_, rfl⟩⟩
    exact answers_guard.mpr ⟨not_not.mpr rfl, answers_pure.mpr ⟨rfl, rfl⟩⟩

/-- The build ends with a look at the checkout. -/
theorem BuiltBetween.last (h : BuiltBetween codec request receipt t) :
    ∃ before after, t = before ++ after ∧ after.length = 3 ∧
      CheckoutSeen codec none receipt.repository receipt.lockfilePath receipt.sourceCommit
        receipt.lockfileSha256 after := by
  obtain ⟨before, log, timeout, status, built, after, rfl, -, -, -, hlength, hafter⟩ := h.order
  exact ⟨_, after, (List.append_assoc before (_ :: built) after).symm, hlength, hafter⟩

/-- The receipt that a successful build has stored is loaded again exactly by a Benchctl with the
digest of the one that built it, while the executable has its digest and what the build has taken
from others is complete; and its checkout is accepted exactly when it is seen as the build last saw
it. -/
theorem stored_receipt_accepted_iff {setOrder : SetOrder} {receiptBytes : BuildReceipt → Bytes}
    (h : Reach (traceMachine CargoOp CargoAns)
      ((cargoBench codec setOrder receiptBytes request).run, []) (.ret (.ok ()), t))
    (hcanonical : ∀ path path', (⟨.canonicalize path, .ok path'⟩ : CargoEvent) ∈ t →
      path'.absolute = true) :
    ∃ receipt before after,
      t = before ++ after ++ [⟨.atomicWrite request.receiptPath (receiptBytes receipt), .ok ()⟩] ∧
      after.length = 3 ∧
      CheckoutSeen codec none receipt.repository receipt.lockfilePath receipt.sourceCommit
        receipt.lockfileSha256 after ∧
      (∀ look : (op : HostOp) → Option (HostAns op),
        look (.readFile request.receiptPath) = some (.ok (receiptBytes receipt)) →
        codec.parseReceipt (receiptBytes receipt) = .ok receipt →
        (Yields look (loadReceipt codec request.receiptPath) receipt ↔
          receipt.Complete ∧
          (∃ exe, look .currentExe = some (.ok exe) ∧
            DigestRead codec look exe receipt.benchctlExecutableSha256) ∧
          DigestRead codec look receipt.executable receipt.executableSha256)) ∧
      ∀ uid gid later, Answers (receipt.verifyCheckoutAs codec uid gid) later (.ok ()) ↔
        CheckoutAgrees codec receipt uid gid later := by
  obtain ⟨hwritten, hsucceeded⟩ := receipt_written_last h
  obtain ⟨bytes, hmem⟩ := hsucceeded rfl
  obtain ⟨-, -, receipt, events, rfl, ht, -, hcertified⟩ := hwritten _ _ _ hmem
  dsimp only at ht
  subst ht
  obtain ⟨before, after, rfl, hlength, hafter⟩ := hcertified.build.last
  have hfields := hcertified.fieldsInvalid_eq_false fun path path' hpath =>
    hcanonical path path' (List.mem_append_left _ hpath)
  obtain ⟨hversion, hclean, -, -, hid⟩ := hcertified.written
  refine ⟨receipt, before, after, rfl, hlength, hafter, ?_, fun uid gid later =>
    answers_verifyCheckoutAs⟩
  intro look hlook hround
  rw [yields_loadReceipt, yields_verifyIdentity, hfields]
  constructor
  · rintro ⟨-, ⟨-, -, hcomplete, hexe, -⟩, himage⟩
    exact ⟨hcomplete, hexe, himage⟩
  · rintro ⟨hcomplete, hexe, himage⟩
    exact ⟨⟨_, hlook, hround⟩, ⟨hversion, hclean, hcomplete, hexe, hid⟩, himage⟩

end Stored

/-- Only the receipt of the good build is written as no bytes. -/
def sampleReceiptBytes (receipt : BuildReceipt) : Bytes := if receipt = sampleBuilt then [] else [0]

/-- The host on which that receipt is loaded later. -/
def sampleLater : (op : HostOp) → Option (HostAns op)
  | .readFile _ => some (.ok [])
  | .currentExe => some (.ok ⟨true, ["benchctl"]⟩)
  | _ => none

/-- What Git prints of the checkout then, and its lockfile. -/
def sampleCheckoutLater : List CargoEvent :=
  [⟨.geteuid, (1 : ℕ)⟩,
    ⟨.output none "git" (["-C", "/r"] ++ revParseHead), .ok ⟨true, "", some "c0ffee\n"⟩⟩,
    ⟨.geteuid, (1 : ℕ)⟩,
    ⟨.output none "git" (["-C", "/r"] ++ statusPorcelain), .ok ⟨true, "", some ""⟩⟩,
    ⟨.readFile ⟨true, ["r", "Cargo.lock"]⟩, .ok []⟩]

theorem sampleBuilt_of_written {receipt : BuildReceipt} {t : List CargoEvent} {path : PathBuf}
    (hlook : ∀ e ∈ t, sampleCargo e.1 = some e.2)
    (h : (⟨.atomicWrite path (sampleReceiptBytes receipt), .ok ()⟩ : CargoEvent) ∈ t) :
    receipt = sampleBuilt := by
  have hanswer := hlook _ h
  by_contra hne
  rw [sampleReceiptBytes, if_neg hne] at hanswer
  cases hanswer

/-- The receipt of the good build is loaded again and its checkout accepted. -/
theorem stored_receipt_accepted_sample :
    ∃ t, Reach (traceMachine CargoOp CargoAns)
        ((cargoBench sampleBuildCodec sampleOrder sampleReceiptBytes sampleBuild).run, [])
        (.ret (.ok ()), t) ∧
      Yields sampleLater (loadReceipt sampleBuildCodec ⟨true, ["o"]⟩) sampleBuilt ∧
      Answers (sampleBuilt.verifyCheckoutAs sampleBuildCodec 1000 1000) sampleCheckoutLater
        (.ok ()) := by
  obtain ⟨t, ht, hlook⟩ :=
    Prog.answered_of_answer (sampleCargo_cargoBench sampleReceiptBytes (if_pos rfl))
  have hrun := ht.reach []
  rw [List.nil_append] at hrun
  have hcanonical : ∀ path path', (⟨.canonicalize path, .ok path'⟩ : CargoEvent) ∈ t →
      path'.absolute = true := by
    intro path path' hmem
    have hanswer := hlook _ hmem
    cases hanswer
    rfl
  obtain ⟨receipt, before, after, heq, -, -, hload, hcheckout⟩ :=
    stored_receipt_accepted_iff hrun hcanonical
  obtain rfl : receipt = sampleBuilt := sampleBuilt_of_written hlook (by
    rw [heq]
    exact List.mem_append_right _ (List.mem_singleton_self _))
  have hcomplete : sampleBuilt.Complete := by
    constructor <;> decide
  refine ⟨t, hrun, (hload sampleLater (congrArg some (congrArg Except.ok (if_pos rfl).symm)) rfl).mpr
    ⟨hcomplete, ?_, ?_⟩, (hcheckout 1000 1000 sampleCheckoutLater).mpr ?_⟩
  · exact ⟨⟨true, ["benchctl"]⟩, rfl, [], rfl, rfl⟩
  · exact ⟨[], rfl, rfl⟩
  · exact ⟨(1 : ℕ), _, (1 : ℕ), _, "c0ffee\n", [], rfl, ⟨_, rfl⟩, ⟨_, rfl⟩, by decide, rfl⟩

end Snoozer.Benchctl
