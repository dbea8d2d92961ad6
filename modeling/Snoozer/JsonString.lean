import Mathlib.Data.Nat.Init
import Mathlib.Tactic.Common

/-! The body of a JSON string: what stands between its quotation marks, as a grammar and as a
reader. A character beyond the basic plane may be written as a surrogate pair. -/
namespace Json

/-- What one element of a body denotes: a character itself, or the code unit of a `\u` escape. -/
inductive Piece where
  | character (c : Char)
  | codeUnit (unit : ℕ)
  deriving DecidableEq, Repr

def hexValue (c : Char) : Option ℕ :=
  if '0' ≤ c ∧ c ≤ '9' then some (c.toNat - '0'.toNat)
  else if 'a' ≤ c ∧ c ≤ 'f' then some (c.toNat - 'a'.toNat + 10)
  else if 'A' ≤ c ∧ c ≤ 'F' then some (c.toNat - 'A'.toNat + 10)
  else none

/-- The value of four hexadecimal digits. -/
def codeUnit (a b c d : Char) : Option ℕ := do
  let a ← hexValue a
  let b ← hexValue b
  let c ← hexValue c
  let d ← hexValue d
  return ((a * 16 + b) * 16 + c) * 16 + d

/-- The character that a backslash and one more character stand for. -/
def shortEscape (c : Char) : Option Char :=
  if c = '\"' ∨ c = '\\' ∨ c = '/' then some c
  else if c = 'b' then some '\x08'
  else if c = 'f' then some '\x0c'
  else if c = 'n' then some '\n'
  else if c = 'r' then some '\r'
  else if c = 't' then some '\t'
  else none

/-- A character that may stand for itself. -/
def Unescaped (c : Char) : Prop := 0x20 ≤ c.toNat ∧ c ≠ '\"' ∧ c ≠ '\\'

instance (c : Char) : Decidable (Unescaped c) := inferInstanceAs (Decidable (_ ∧ _ ∧ _))

/-- One element of a body. -/
inductive Element : List Char → Piece → Prop where
  | unescaped {c : Char} : Unescaped c → Element [c] (.character c)
  | short {c denoted : Char} : shortEscape c = some denoted →
      Element ['\\', c] (.character denoted)
  | unicode {a b c d : Char} {unit : ℕ} : codeUnit a b c d = some unit →
      Element ['\\', 'u', a, b, c, d] (.codeUnit unit)

/-- Elements one after the other. -/
inductive Body : List Char → List Piece → Prop where
  | nil : Body [] []
  | cons {element rest : List Char} {piece : Piece} {pieces : List Piece} :
      Element element piece → Body rest pieces → Body (element ++ rest) (piece :: pieces)

/-- The characters that a body denotes: code units outside the surrogates are characters, and
a high surrogate needs a low one after it. -/
def text : List Piece → Option (List Char)
  | [] => some []
  | .character c :: pieces => (text pieces).map (c :: ·)
  | .codeUnit unit :: pieces =>
    if unit.isValidChar then
      (text pieces).map (Char.ofNat unit :: ·)
    else
      match pieces with
      | .codeUnit low :: pieces =>
        if 0xd800 ≤ unit ∧ unit < 0xdc00 ∧ 0xdc00 ≤ low ∧ low < 0xe000 then
          (text pieces).map (Char.ofNat (0x10000 + (unit - 0xd800) * 0x400 + (low - 0xdc00)) :: ·)
        else
          none
      | _ => none

def readPieces : List Char → Option (List Piece)
  | [] => some []
  | c :: rest =>
    if c = '\\' then
      match rest with
      | [] => none
      | e :: rest =>
        if e = 'u' then
          match rest with
          | a :: b :: c :: d :: rest =>
            (codeUnit a b c d).bind fun unit => (readPieces rest).map (.codeUnit unit :: ·)
          | _ => none
        else
          (shortEscape e).bind fun denoted => (readPieces rest).map (.character denoted :: ·)
    else if Unescaped c then
      (readPieces rest).map (.character c :: ·)
    else
      none

def decodeChars (body : List Char) : Option (List Char) := (readPieces body).bind text

/-- The string that a body denotes, if it is a body. -/
def decode (body : String) : Option String := (decodeChars body.toList).map String.ofList

theorem shortEscape_u : shortEscape 'u' = none := by decide

/-- Reading takes an element off the front. -/
theorem readPieces_element {element : List Char} {piece : Piece} (h : Element element piece)
    (rest : List Char) :
    readPieces (element ++ rest) = (readPieces rest).map (piece :: ·) := by
  cases h with
  | @unescaped c hc =>
    have hne : c ≠ '\\' := hc.2.2
    rw [List.singleton_append, readPieces.eq_def]
    simp only [if_neg hne, if_pos hc]
  | @short c denoted hc =>
    have hne : c ≠ 'u' := by
      rintro rfl
      rw [shortEscape_u] at hc
      cases hc
    rw [List.cons_append, List.singleton_append, readPieces.eq_def]
    simp only [if_true, if_neg hne, hc, Option.bind_some]
  | unicode hunit =>
    rw [readPieces.eq_def]
    simp only [List.cons_append, List.nil_append, if_true, hunit, Option.bind_some]

/-- What is read first is an element. -/
theorem exists_element {body : List Char} {pieces : List Piece}
    (h : readPieces body = some pieces) (hne : body ≠ []) :
    ∃ element rest piece pieces', Element element piece ∧ body = element ++ rest ∧
      pieces = piece :: pieces' ∧ readPieces rest = some pieces' := by
  rw [readPieces.eq_def] at h
  split at h
  · exact absurd rfl hne
  · next c rest =>
    split at h
    · next hc =>
      subst hc
      split at h
      · cases h
      · next e rest =>
        split at h
        · next he =>
          subst he
          split at h
          · next a b c d rest =>
            obtain ⟨unit, hunit, h⟩ := Option.bind_eq_some_iff.mp h
            obtain ⟨pieces', hrest, rfl⟩ := Option.map_eq_some_iff.mp h
            exact ⟨_, rest, _, pieces', .unicode hunit, rfl, rfl, hrest⟩
          · cases h
        · obtain ⟨denoted, hdenoted, h⟩ := Option.bind_eq_some_iff.mp h
          obtain ⟨pieces', hrest, rfl⟩ := Option.map_eq_some_iff.mp h
          exact ⟨_, rest, _, pieces', .short hdenoted, rfl, rfl, hrest⟩
    · split at h
      · next hc =>
        obtain ⟨pieces', hrest, rfl⟩ := Option.map_eq_some_iff.mp h
        exact ⟨_, rest, _, pieces', .unescaped hc, rfl, rfl, hrest⟩
      · cases h

theorem Element.length_pos {element : List Char} {piece : Piece} (h : Element element piece) :
    0 < element.length := by
  cases h <;> simp only [List.length_cons, List.length_nil] <;> omega

/-- The reader finds exactly what the grammar derives. -/
theorem readPieces_eq_some {body : List Char} {pieces : List Piece} :
    readPieces body = some pieces ↔ Body body pieces := by
  constructor
  · intro h
    -- Every element is shorter than the body it starts.
    induction hn : body.length using Nat.strong_induction_on generalizing body pieces with
    | _ n ih =>
      by_cases hne : body = []
      · subst hne
        cases h
        exact .nil
      · obtain ⟨element, rest, piece, pieces', helement, rfl, rfl, hrest⟩ := exists_element h hne
        have hpos := helement.length_pos
        rw [List.length_append] at hn
        exact .cons helement (ih rest.length (by omega) hrest rfl)
  · intro h
    induction h with
    | nil => rfl
    | cons helement _ ih => rw [readPieces_element helement, ih, Option.map_some]

/-- A body denotes at most one string, and the reader returns it. -/
theorem decode_eq_some {body s : String} :
    decode body = some s ↔ ∃ pieces, Body body.toList pieces ∧ text pieces = some s.toList := by
  unfold decode decodeChars
  rw [Option.map_eq_some_iff]
  constructor
  · rintro ⟨chars, hchars, rfl⟩
    obtain ⟨pieces, hread, htext⟩ := Option.bind_eq_some_iff.mp hchars
    rw [String.toList_ofList]
    exact ⟨pieces, readPieces_eq_some.mp hread, htext⟩
  · rintro ⟨pieces, hbody, htext⟩
    refine ⟨s.toList, ?_, String.ofList_toList⟩
    rw [readPieces_eq_some.mpr hbody, Option.bind_some, htext]

/-- An element that denotes the character whatever comes after it. -/
def Spells (element : List Char) (c : Char) : Prop :=
  ∃ piece, Element element piece ∧
    ∀ pieces, text (piece :: pieces) = (text pieces).map (c :: ·)

theorem spells_unescaped {c : Char} (h : Unescaped c) : Spells [c] c :=
  ⟨_, .unescaped h, fun _ => rfl⟩

theorem spells_short {c denoted : Char} (h : shortEscape c = some denoted) :
    Spells ['\\', c] denoted :=
  ⟨_, .short h, fun _ => rfl⟩

/-- A character of the basic plane is its own code unit. -/
theorem spells_unicode {a b c d denoted : Char} (h : codeUnit a b c d = some denoted.toNat) :
    Spells ['\\', 'u', a, b, c, d] denoted := by
  refine ⟨_, .unicode h, fun pieces => ?_⟩
  have hvalid : denoted.toNat.isValidChar := denoted.valid
  rw [text.eq_def]
  simp only [if_pos hvalid, Char.ofNat_toNat]

theorem Spells.decodeChars {element : List Char} {c : Char} (h : Spells element c)
    (rest : List Char) : decodeChars (element ++ rest) = (decodeChars rest).map (c :: ·) := by
  obtain ⟨piece, helement, htext⟩ := h
  unfold Json.decodeChars
  rw [readPieces_element helement]
  cases readPieces rest with
  | none => rfl
  | some pieces => exact htext pieces

/-- Elements cannot fuse: characters spelled one after the other are read back one by one. -/
theorem decodeChars_flatMap {spell : Char → List Char} (h : ∀ c, Spells (spell c) c)
    (chars : List Char) : decodeChars (chars.flatMap spell) = some chars := by
  induction chars with
  | nil => rfl
  | cons c chars ih => rw [List.flatMap_cons, (h c).decodeChars, ih, Option.map_some]

end Json
