import Snoozer.CargoBench
import Snoozer.DecimalLiteral
import Snoozer.TextFields

/-! The mapping of a user namespace, as the kernel prints it in `/proc/self/uid_map` and as
`require_host_root_mapping` and `maps_namespace_root_to_host_root` read it. -/
namespace Snoozer.Benchctl

/-- `str::split_whitespace`. -/
def splitWhitespace (line : String) : List (List Char) := Text.fields isWhiteSpace line.toList

def mapsRoot (line : String) : Bool :=
  match splitWhitespace line with
  | [inside, outside, length] =>
    inside = ['0'] && outside = ['0'] &&
      match Decimal.fromStr u64Max length with
      | .ok length => 0 < length
      | .error _ => false
  | _ => false

def mapsNamespaceRootToHostRoot (mappings : String) : Bool := (lines mappings).any mapsRoot

/-- Users of the namespace, and those that they are for its parent. -/
structure Extent where
  inside : ℕ
  outside : ℕ
  count : ℕ
  count_lt : count < 2 ^ 32
  deriving DecidableEq, Repr

/-- `%10u`. -/
def blanksBefore (n : ℕ) : List Char := List.replicate (10 - n.repr.toList.length) ' '

/-- Each number with the blanks before it, and one more between two of them. -/
def Extent.items (extent : Extent) : List (List Char × List Char) :=
  [(blanksBefore extent.inside, extent.inside.repr.toList),
    (' ' :: blanksBefore extent.outside, extent.outside.repr.toList),
    (' ' :: blanksBefore extent.count, extent.count.repr.toList)]

def Extent.line (extent : Extent) : List Char := extent.items.flatMap fun item => item.1 ++ item.2

def uidMapText (extents : List Extent) : String :=
  String.ofList (extents.flatMap fun extent => extent.line ++ ['\n'])

/-- Root of the namespace is root of its parent. -/
def Extent.MapsRoot (extent : Extent) : Prop :=
  extent.inside = 0 ∧ extent.outside = 0 ∧ 0 < extent.count

theorem isDigit_of_mem_repr {n : ℕ} {c : Char} (hc : c ∈ n.repr.toList) : c.isDigit = true := by
  rw [Nat.toList_repr] at hc
  exact Nat.isDigit_of_mem_toDigits (by decide) le_rfl hc

/-- A digit is not white space. -/
theorem isWhiteSpace_of_isDigit {c : Char} (hc : c.isDigit = true) : isWhiteSpace c = false := by
  have hrange : 48 ≤ c.val.toNat ∧ c.val.toNat ≤ 57 := by
    simp only [Char.isDigit, Bool.and_eq_true, decide_eq_true_eq, UInt32.le_iff_toNat_le] at hc
    exact hc
  have hne (v : UInt32) (hv : ¬ (48 ≤ v.toNat ∧ v.toNat ≤ 57)) : c.val ≠ v := by
    intro h
    rw [h] at hrange
    exact hv hrange
  simp only [isWhiteSpace, Bool.or_eq_false_iff, Bool.and_eq_false_iff, decide_eq_false_iff_not,
    UInt32.le_iff_toNat_le, not_le]
  refine ⟨⟨⟨⟨⟨⟨⟨⟨⟨⟨Or.inr ?_, hne _ (by decide)⟩, hne _ (by decide)⟩, hne _ (by decide)⟩,
    hne _ (by decide)⟩, Or.inl ?_⟩, hne _ (by decide)⟩, hne _ (by decide)⟩, hne _ (by decide)⟩,
    hne _ (by decide)⟩, hne _ (by decide)⟩
  · show 13 < c.val.toNat
    omega
  · show c.val.toNat < 8192
    omega

theorem solid_repr (n : ℕ) : Text.Solid isWhiteSpace n.repr.toList := by
  constructor
  · rw [Nat.toList_repr]
    exact Nat.toDigits_ne_nil
  · exact fun c hc => isWhiteSpace_of_isDigit (isDigit_of_mem_repr hc)

/-- Only zero is written with one zero. -/
theorem repr_eq_zero {n : ℕ} : n.repr.toList = ['0'] ↔ n = 0 := by
  constructor
  · intro h
    have hn : Decimal.Literal n n.repr.toList n := Decimal.literal_repr le_rfl
    have hzero : Decimal.Literal n (Nat.repr 0).toList 0 := Decimal.literal_repr (Nat.zero_le n)
    rw [h] at hn
    exact hn.unique hzero
  · rintro rfl
    rfl

/-- A line of the map has the three numbers of its extent as fields. -/
theorem fields_line (extent : Extent) : Text.fields isWhiteSpace extent.line =
    [extent.inside.repr.toList, extent.outside.repr.toList, extent.count.repr.toList] := by
  have hblank : isWhiteSpace ' ' = true := by decide
  have hblanks (n : ℕ) : ∀ c ∈ blanksBefore n, isWhiteSpace c = true := by
    intro c hc
    rw [List.eq_of_mem_replicate hc]
    exact hblank
  unfold Extent.line
  rw [Text.fields_flatMap]
  · rfl
  · simp only [Extent.items, List.forall_mem_cons, List.not_mem_nil, false_imp_iff, implies_true,
      and_true]
    exact ⟨hblanks _, ⟨hblank, hblanks _⟩, hblank, hblanks _⟩
  · simp only [Extent.items, List.forall_mem_cons, List.not_mem_nil, false_imp_iff, implies_true,
      and_true]
    exact ⟨solid_repr _, solid_repr _, solid_repr _⟩
  · simp only [Extent.items, List.tail_cons, List.forall_mem_cons, List.not_mem_nil, false_imp_iff,
      implies_true, and_true]
    exact ⟨List.cons_ne_nil _ _, List.cons_ne_nil _ _⟩

theorem mapsRoot_line (extent : Extent) :
    mapsRoot (String.ofList extent.line) = true ↔ extent.MapsRoot := by
  have hle : extent.count ≤ u64Max := by
    have hlt := extent.count_lt
    unfold u64Max
    omega
  have hread : Decimal.fromStr u64Max extent.count.repr.toList = .ok extent.count :=
    Decimal.fromStr_eq_ok.mpr (Decimal.literal_repr hle)
  unfold mapsRoot splitWhitespace Extent.MapsRoot
  rw [String.toList_ofList, fields_line]
  simp only [hread, Bool.and_eq_true, decide_eq_true_eq, repr_eq_zero, and_assoc]

/-- No character of a line ends it. -/
theorem line_unbroken {extent : Extent} {c : Char} (hc : c ∈ extent.line) :
    c ≠ '\n' ∧ c ≠ '\r' := by
  obtain ⟨item, hitem, hmem⟩ := List.mem_flatMap.mp hc
  have hblank (n : ℕ) (h : c ∈ blanksBefore n) : c = ' ' := List.eq_of_mem_replicate h
  have hkind : c = ' ' ∨ c.isDigit = true := by
    simp only [Extent.items, List.mem_cons, List.not_mem_nil, or_false] at hitem
    rcases List.mem_append.mp hmem with hgap | hword
    · rcases hitem with rfl | rfl | rfl
      · exact Or.inl (hblank _ hgap)
      · exact Or.inl ((List.mem_cons.mp hgap).elim id (hblank _))
      · exact Or.inl ((List.mem_cons.mp hgap).elim id (hblank _))
    · rcases hitem with rfl | rfl | rfl <;> exact Or.inr (isDigit_of_mem_repr hword)
  rcases hkind with rfl | hdigit
  · decide
  · constructor
    · rintro rfl
      exact absurd hdigit (by decide)
    · rintro rfl
      exact absurd hdigit (by decide)

theorem linesFrom_unbroken {line : List Char} (h : ∀ c ∈ line, c ≠ '\n') (before rest : List Char) :
    linesFrom before (line ++ '\n' :: rest) =
      endLine (line.reverse ++ before) :: linesFrom [] rest := by
  induction line generalizing before with
  | nil => rw [List.nil_append, linesFrom, if_pos rfl, List.reverse_nil, List.nil_append]
  | cons c line ih =>
    have hc : c ≠ '\n' := h c List.mem_cons_self
    have hline : ∀ d ∈ line, d ≠ '\n' := fun d hd => h d (List.mem_cons_of_mem c hd)
    rw [List.cons_append, linesFrom, if_neg hc, ih hline, List.reverse_cons, List.append_assoc,
      List.singleton_append]

theorem endLine_unbroken {line : List Char} (h : ∀ c ∈ line, c ≠ '\r') :
    endLine (line.reverse ++ []) = String.ofList line := by
  rw [List.append_nil]
  unfold endLine
  split
  · next rest hline =>
    have hmem : '\r' ∈ line := by
      rw [← List.mem_reverse, hline]
      exact List.mem_cons_self
    exact absurd rfl (h _ hmem)
  · rw [List.reverse_reverse]

theorem lines_uidMapText (extents : List Extent) :
    lines (uidMapText extents) = extents.map fun extent => String.ofList extent.line := by
  unfold lines uidMapText
  rw [String.toList_ofList]
  induction extents with
  | nil => rfl
  | cons extent extents ih =>
    have hunbroken : ∀ c ∈ extent.line, c ≠ '\n' := fun c hc => (line_unbroken hc).1
    have hreturn : ∀ c ∈ extent.line, c ≠ '\r' := fun c hc => (line_unbroken hc).2
    rw [List.flatMap_cons, List.append_assoc, List.singleton_append, linesFrom_unbroken hunbroken,
      endLine_unbroken hreturn, ih, List.map_cons]

/-- The mapping that the kernel prints is accepted when one of its extents maps root to root. -/
theorem mapsNamespaceRootToHostRoot_text (extents : List Extent) :
    mapsNamespaceRootToHostRoot (uidMapText extents) = true ↔
      ∃ extent ∈ extents, extent.MapsRoot := by
  rw [mapsNamespaceRootToHostRoot, lines_uidMapText, List.any_map, List.any_eq_true]
  simp only [Function.comp_apply, mapsRoot_line]

end Snoozer.Benchctl
