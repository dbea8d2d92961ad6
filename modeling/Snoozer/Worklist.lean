import Mathlib.Logic.Relation
import Mathlib.Data.List.Nodup
import Mathlib.Tactic.Common

/-! A worklist search over a graph whose edges are looked up, and may be missing. The
visited list is filled when an element is taken off the queue, so the queue may hold
repetitions. -/
namespace Worklist

variable {α : Type}

/-- `b` is among the successors that are found at `a`. -/
def Edge (next : α → Option (List α)) (a b : α) : Prop := ∃ bs, next a = some bs ∧ b ∈ bs

variable {next : α → Option (List α)}

/-- What the loop keeps: nothing is visited twice or without successors, and the successors of
what is visited are visited or in the queue. -/
structure Searching (next : α → Option (List α)) (root : α) (pending visited : List α) : Prop where
  nodup : visited.Nodup
  sound : ∀ a, a ∈ visited ∨ a ∈ pending → Relation.ReflTransGen (Edge next) root a
  found : ∀ a ∈ visited, ∃ bs, next a = some bs
  closed : ∀ a ∈ visited, ∀ b, Edge next a b → b ∈ visited ∨ b ∈ pending
  start : root ∈ visited ∨ root ∈ pending

theorem searching_start (root : α) : Searching next root [root] [] where
  nodup := List.nodup_nil
  sound a ha := by
    have ha : a = root := by simpa using ha
    rw [ha]
  found _ ha := nomatch ha
  closed _ ha := nomatch ha
  start := Or.inr List.mem_cons_self

theorem Searching.skip {root a : α} {pending visited : List α}
    (h : Searching next root (a :: pending) visited) (ha : a ∈ visited) :
    Searching next root pending visited := by
  have hdrop : ∀ b, b ∈ visited ∨ b ∈ a :: pending → b ∈ visited ∨ b ∈ pending := by
    rintro b (hb | hb)
    · exact Or.inl hb
    · rcases List.mem_cons.mp hb with rfl | hb
      · exact Or.inl ha
      · exact Or.inr hb
  exact ⟨h.nodup, fun b hb => h.sound b (hb.imp_right (List.mem_cons_of_mem _)), h.found,
    fun b hb c hc => hdrop c (h.closed b hb c hc), hdrop root h.start⟩

/-- Visiting a new element keeps the search going. -/
theorem Searching.visit {root a : α} {pending visited bs : List α}
    (h : Searching next root (a :: pending) visited) (ha : a ∉ visited)
    (hnext : next a = some bs) : Searching next root (pending ++ bs) (visited ++ [a]) := by
  have hroot : Relation.ReflTransGen (Edge next) root a := h.sound a (Or.inr List.mem_cons_self)
  have hmove : ∀ b, b ∈ visited ∨ b ∈ a :: pending → b ∈ visited ++ [a] ∨ b ∈ pending ++ bs := by
    intro b hb
    simp only [List.mem_cons, List.mem_append] at hb ⊢
    tauto
  refine ⟨?_, fun b hb => ?_, fun b hb => ?_, fun b hb c hc => ?_, hmove root h.start⟩
  · rw [List.nodup_append]
    refine ⟨h.nodup, List.nodup_singleton a, fun b hb c hc hbc => ?_⟩
    rw [hbc, List.mem_singleton.mp hc] at hb
    exact ha hb
  · simp only [List.mem_append, List.mem_singleton] at hb
    rcases hb with (hb | rfl) | (hb | hb)
    · exact h.sound b (Or.inl hb)
    · exact hroot
    · exact h.sound b (Or.inr (List.mem_cons_of_mem _ hb))
    · exact hroot.tail ⟨bs, hnext, hb⟩
  · rcases List.mem_append.mp hb with hb | hb
    · exact h.found b hb
    · exact ⟨bs, List.mem_singleton.mp hb ▸ hnext⟩
  · rcases List.mem_append.mp hb with hb | hb
    · exact hmove c (h.closed b hb c hc)
    · obtain ⟨bs', hbs', hc⟩ := hc
      rw [List.mem_singleton.mp hb, hnext, Option.some.injEq] at hbs'
      exact Or.inr (List.mem_append_right _ (hbs' ▸ hc))

/-- What a search has found when it ends. -/
def Found (next : α → Option (List α)) (root : α) : Except α (List α) → Prop
  | .ok visited => visited.Nodup ∧
      ∀ a, a ∈ visited ↔ Relation.ReflTransGen (Edge next) root a
  | .error a => Relation.ReflTransGen (Edge next) root a ∧ next a = none

/-- Every element from which something is found is in the list. -/
structure Domain (next : α → Option (List α)) where
  elements : List α
  complete : ∀ a bs, next a = some bs → a ∈ elements

variable [DecidableEq α]

def Domain.unvisited {next : α → Option (List α)} (D : Domain next) (visited : List α) : ℕ :=
  (D.elements.filter (· ∉ visited)).length

/-- A visit leaves fewer elements unvisited. -/
theorem Domain.unvisited_lt {next : α → Option (List α)} (D : Domain next) {visited bs : List α}
    {a : α} (ha : a ∉ visited) (hnext : next a = some bs) :
    D.unvisited (visited ++ [a]) < D.unvisited visited := by
  have hsub : (D.elements.filter (· ∉ visited ++ [a])).Sublist
      (D.elements.filter (· ∉ visited)) := by
    apply List.monotone_filter_right
    intro b hb
    simp only [List.mem_append, List.mem_singleton, not_or, decide_eq_true_eq] at hb ⊢
    exact hb.1
  apply Nat.lt_of_le_of_ne hsub.length_le
  intro hlength
  have hmem : a ∈ D.elements.filter (· ∉ visited) :=
    List.mem_filter.mpr ⟨D.complete a bs hnext, decide_eq_true ha⟩
  rw [← hsub.eq_of_length hlength, List.mem_filter] at hmem
  simp at hmem

/-- Take elements off the queue until it is empty or one has no successors to be found. -/
def search (next : α → Option (List α)) (D : Domain next) : List α → List α → Except α (List α)
  | [], visited => .ok visited
  | a :: pending, visited =>
    if _h : a ∈ visited then search next D pending visited
    else
      match _hnext : next a with
      | none => .error a
      | some bs => search next D (pending ++ bs) (visited ++ [a])
termination_by pending visited => (D.unvisited visited, pending.length)
decreasing_by
  · exact .right _ (Nat.lt_succ_self _)
  · exact .left _ _ (D.unvisited_lt (by assumption) (by assumption))

variable {D : Domain next}

theorem search_nil (visited : List α) : search next D [] visited = .ok visited := by
  rw [search]

theorem search_visited {a : α} {pending visited : List α} (h : a ∈ visited) :
    search next D (a :: pending) visited = search next D pending visited := by
  rw [search, dif_pos h]

theorem search_missing {a : α} {pending visited : List α} (h : a ∉ visited) (hnext : next a = none) :
    search next D (a :: pending) visited = .error a := by
  rw [search, dif_neg h]
  split
  · rfl
  · next bs hbs => exact nomatch hbs.symm.trans hnext

theorem search_found {a : α} {pending visited bs : List α} (h : a ∉ visited)
    (hnext : next a = some bs) :
    search next D (a :: pending) visited = search next D (pending ++ bs) (visited ++ [a]) := by
  rw [search, dif_neg h]
  split
  · next hnone => exact nomatch hnone.symm.trans hnext
  · next bs' hbs =>
    rw [Option.some.inj (hbs.symm.trans hnext)]

/-- The search ends with what is reachable, or at an element that has no successors. -/
theorem Searching.ends {root : α} {pending visited : List α}
    (h : Searching next root pending visited) :
    Found next root (search next D pending visited) ∧
      ∀ v, search next D pending visited = .ok v → ∀ a ∈ v, ∃ bs, next a = some bs := by
  induction pending, visited using search.induct next D with
  | case1 visited =>
    rw [search_nil]
    refine ⟨⟨h.nodup, fun a => ⟨fun ha => h.sound a (Or.inl ha), fun hreach => ?_⟩⟩, ?_⟩
    · have hempty : ∀ b, b ∈ visited ∨ b ∈ ([] : List α) → b ∈ visited := by simp
      induction hreach with
      | refl => exact hempty _ h.start
      | tail _ hedge ih => exact hempty _ (h.closed _ ih _ hedge)
    · rintro _ ⟨⟩
      exact h.found
  | case2 a pending visited ha ih =>
    rw [search_visited ha]
    exact ih (h.skip ha)
  | case3 a pending visited ha hnext =>
    rw [search_missing ha hnext]
    exact ⟨⟨h.sound a (Or.inr List.mem_cons_self), hnext⟩, fun _ hv => nomatch hv⟩
  | case4 a pending visited ha bs hnext ih =>
    rw [search_found ha hnext]
    exact ih (h.visit ha hnext)

/-- A search that ends well has visited exactly what can be reached, each once. -/
theorem search_root (root : α) : Found next root (search next D [root] []) ∧
    ∀ v, search next D [root] [] = .ok v → ∀ a ∈ v, ∃ bs, next a = some bs :=
  (searching_start root).ends

/-- Only what can be reached from the queue matters. -/
theorem search_congr {next' : α → Option (List α)} {D' : Domain next'} {pending visited : List α}
    (h : ∀ p ∈ pending, ∀ a, Relation.ReflTransGen (Edge next) p a → next' a = next a) :
    search next' D' pending visited = search next D pending visited := by
  induction pending, visited using search.induct next D with
  | case1 visited => rw [search_nil, search_nil]
  | case2 a pending visited ha ih =>
    rw [search_visited ha, search_visited ha]
    exact ih fun p hp => h p (List.mem_cons_of_mem _ hp)
  | case3 a pending visited ha hnext =>
    rw [search_missing ha hnext, search_missing ha]
    rw [h a List.mem_cons_self a .refl, hnext]
  | case4 a pending visited ha bs hnext ih =>
    rw [search_found ha hnext, search_found ha ((h a List.mem_cons_self a .refl).trans hnext)]
    apply ih
    intro p hp b hreach
    rcases List.mem_append.mp hp with hp | hp
    · exact h p (List.mem_cons_of_mem _ hp) b hreach
    · exact h a List.mem_cons_self b (.head ⟨bs, hnext, hp⟩ hreach)

end Worklist
