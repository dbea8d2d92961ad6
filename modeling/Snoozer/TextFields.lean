import Mathlib.Data.List.Basic

/-! The words of a text between blanks, and how a text is laid out so that its words are found
again. -/
namespace Text

variable {α : Type} (blank : α → Bool)

/-- `word` is what stands of the current word so far, in reverse. -/
def fieldsFrom (word : List α) : List α → List (List α)
  | [] => if word.isEmpty then [] else [word.reverse]
  | c :: rest =>
    if blank c then
      if word.isEmpty then fieldsFrom [] rest else word.reverse :: fieldsFrom [] rest
    else fieldsFrom (c :: word) rest

def fields (text : List α) : List (List α) := fieldsFrom blank [] text

variable {blank} {gap word rest text : List α}

/-- A text without blanks. -/
def Solid (blank : α → Bool) (word : List α) : Prop := word ≠ [] ∧ ∀ c ∈ word, blank c = false

theorem fieldsFrom_solid (hword : ∀ c ∈ word, blank c = false) (before : List α) :
    fieldsFrom blank before (word ++ rest) = fieldsFrom blank (word.reverse ++ before) rest := by
  induction word generalizing before with
  | nil => rfl
  | cons c word ih =>
    have hc : blank c = false := hword c List.mem_cons_self
    have hrest : ∀ c ∈ word, blank c = false := fun d hd => hword d (List.mem_cons_of_mem c hd)
    rw [List.cons_append, fieldsFrom, hc, if_neg Bool.false_ne_true, ih hrest, List.reverse_cons,
      List.append_assoc, List.singleton_append]

theorem fields_blanks (hgap : ∀ c ∈ gap, blank c = true) :
    fields blank (gap ++ text) = fields blank text := by
  induction gap with
  | nil => rfl
  | cons c gap ih =>
    have hc : blank c = true := hgap c List.mem_cons_self
    have hskip : fields blank (c :: (gap ++ text)) = fields blank (gap ++ text) := by
      rw [fields, fieldsFrom, if_pos hc, if_pos List.isEmpty_nil]
      rfl
    rw [List.cons_append, hskip, ih fun d hd => hgap d (List.mem_cons_of_mem c hd)]

/-- A word that is being read is not lost at the next blank. -/
theorem reverse_isEmpty (hword : word ≠ []) : ¬ (word.reverse ++ []).isEmpty = true := by
  rw [List.append_nil, List.isEmpty_iff, List.reverse_eq_nil_iff]
  exact hword

theorem fields_solid (hword : Solid blank word) : fields blank word = [word] := by
  have hread : fields blank (word ++ []) = fieldsFrom blank (word.reverse ++ []) [] :=
    fieldsFrom_solid hword.2 []
  rw [List.append_nil] at hread
  rw [hread, fieldsFrom, if_neg (reverse_isEmpty hword.1), List.append_nil, List.reverse_reverse]

theorem fields_solid_blank {c : α} (hword : Solid blank word) (hc : blank c = true) :
    fields blank (word ++ c :: rest) = word :: fields blank rest := by
  have hread : fields blank (word ++ c :: rest) =
      fieldsFrom blank (word.reverse ++ []) (c :: rest) := fieldsFrom_solid hword.2 []
  rw [hread, fieldsFrom, if_pos hc, if_neg (reverse_isEmpty hword.1), List.append_nil,
    List.reverse_reverse]
  rfl

/-- Words with blanks before them, where only the first word may have none: they are the fields. -/
theorem fields_flatMap {items : List (List α × List α)}
    (hgaps : ∀ item ∈ items, ∀ c ∈ item.1, blank c = true)
    (hwords : ∀ item ∈ items, Solid blank item.2) (happart : ∀ item ∈ items.tail, item.1 ≠ []) :
    fields blank (items.flatMap fun item => item.1 ++ item.2) = items.map Prod.snd := by
  induction items with
  | nil => rfl
  | cons item items ih =>
    have hgap : ∀ c ∈ item.1, blank c = true := hgaps item List.mem_cons_self
    have hword : Solid blank item.2 := hwords item List.mem_cons_self
    have hrest : fields blank (items.flatMap fun item => item.1 ++ item.2) = items.map Prod.snd :=
      ih (fun other h => hgaps other (List.mem_cons_of_mem item h))
        (fun other h => hwords other (List.mem_cons_of_mem item h))
        (fun other h => happart other (List.mem_of_mem_tail h))
    rw [List.flatMap_cons, List.append_assoc, fields_blanks hgap, List.map_cons]
    cases items with
    | nil => exact (congrArg _ (List.append_nil item.2)).trans (fields_solid hword)
    | cons next items =>
      -- the gap before the next word ends this one, and what is left of it is skipped
      obtain ⟨_ | ⟨c, gap⟩, following⟩ := next
      · exact absurd rfl (happart _ List.mem_cons_self)
      · have hc : blank c = true :=
          hgaps _ (List.mem_cons_of_mem item List.mem_cons_self) c List.mem_cons_self
        have hblank : ∀ d ∈ [c], blank d = true := fun d hd => List.mem_singleton.mp hd ▸ hc
        have hskip (text : List α) : fields blank (c :: text) = fields blank text :=
          fields_blanks hblank
        rw [List.flatMap_cons, List.cons_append, List.cons_append] at hrest ⊢
        rw [hskip] at hrest
        rw [fields_solid_blank hword hc, hrest]

end Text
