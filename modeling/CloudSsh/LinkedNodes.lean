import Mathlib.Data.List.Nodup
import Mathlib.Logic.Function.Basic

/-!
# Singly linked lists in memory

A node holds a value and a pointer to the next node, or to none. A segment is the list of nodes
that one walks from a pointer to another; the list that a pointer stands for is the segment to
none. What such a walk does not visit has no part in it.
-/
namespace LinkedNodes

variable {α ν : Type}

/-- The nodes there are, by their addresses. -/
abbrev Nodes (α ν : Type) := α → Option (ν × Option α)

inductive Segment (node : Nodes α ν) : Option α → List (α × ν) → Option α → Prop where
  | nil (p : Option α) : Segment node p [] p
  | cons {a : α} {v : ν} {r q : Option α} {l : List (α × ν)} (hnode : node a = some (v, r))
      (hrest : Segment node r l q) : Segment node (some a) ((a, v) :: l) q

variable {node node' : Nodes α ν} {p q r : Option α} {l l' : List (α × ν)} {a b : α} {v w : ν}

theorem segment_nil_iff : Segment node p [] q ↔ p = q := by
  constructor
  · intro h
    cases h
    rfl
  · rintro rfl
    exact .nil p

theorem segment_cons_iff :
    Segment node p ((a, v) :: l) q ↔
      p = some a ∧ ∃ r, node a = some (v, r) ∧ Segment node r l q := by
  constructor
  · intro h
    cases h with
    | cons hnode hrest => exact ⟨rfl, _, hnode, hrest⟩
  · rintro ⟨rfl, r, hnode, hrest⟩
    exact .cons hnode hrest

theorem segment_append_iff :
    Segment node p (l ++ l') q ↔ ∃ r, Segment node p l r ∧ Segment node r l' q := by
  induction l generalizing p with
  | nil => simp [segment_nil_iff]
  | cons c l ih =>
    obtain ⟨a, v⟩ := c
    simp only [List.cons_append, segment_cons_iff, ih]
    constructor
    · rintro ⟨rfl, s, hnode, r, hl, hl'⟩
      exact ⟨r, ⟨rfl, s, hnode, hl⟩, hl'⟩
    · rintro ⟨r, ⟨rfl, s, hnode, hl⟩, hl'⟩
      exact ⟨rfl, s, hnode, r, hl, hl'⟩

/-- A node of a segment, with the pointers around it. -/
theorem segment_middle_iff : Segment node p (l ++ (a, v) :: l') q ↔
    Segment node p l (some a) ∧ ∃ r, node a = some (v, r) ∧ Segment node r l' q := by
  rw [segment_append_iff]
  constructor
  · rintro ⟨s, hl, hback⟩
    obtain ⟨rfl, hrest⟩ := segment_cons_iff.mp hback
    exact ⟨hl, hrest⟩
  · rintro ⟨hl, hrest⟩
    exact ⟨some a, hl, segment_cons_iff.mpr ⟨rfl, hrest⟩⟩

/-- A walk sees its own nodes only. -/
theorem Segment.congr (h : Segment node p l q) (hsame : ∀ a ∈ l.map Prod.fst, node' a = node a) :
    Segment node' p l q := by
  induction h with
  | nil p => exact .nil p
  | cons hnode _ ih =>
    rw [List.map_cons, List.forall_mem_cons] at hsame
    exact .cons (hsame.1.trans hnode) (ih hsame.2)

/-- The nodes of a segment are there. -/
theorem Segment.live (h : Segment node p l q) (ha : a ∈ l.map Prod.fst) : node a ≠ none := by
  induction h with
  | nil p => cases ha
  | cons hnode _ ih =>
    rcases List.mem_cons.mp ha with rfl | ha
    · simp [hnode]
    · exact ih ha

theorem Segment.empty_iff (h : Segment node p l none) : p = none ↔ l = [] := by
  cases h with
  | nil => simp
  | cons => simp

/-- A pointer stands for one list. -/
theorem Segment.unique (h : Segment node p l none) (h' : Segment node p l' none) : l = l' := by
  induction l generalizing p l' with
  | nil => exact (h'.empty_iff.mp (segment_nil_iff.mp h)).symm
  | cons c l ih =>
    obtain ⟨a, v⟩ := c
    obtain ⟨rfl, r, hnode, hrest⟩ := segment_cons_iff.mp h
    cases h' with
    | cons hnode' hrest' =>
      obtain ⟨rfl, rfl⟩ := Prod.mk.inj (Option.some.inj (hnode.symm.trans hnode'))
      rw [ih hrest hrest']

/-- A walk that ends passes no node twice: what follows the first visit is what
follows the second. -/
theorem Segment.nodup (h : Segment node p l none) : (l.map Prod.fst).Nodup := by
  induction l generalizing p with
  | nil => exact List.nodup_nil
  | cons c l ih =>
    obtain ⟨a, v⟩ := c
    obtain ⟨rfl, r, hnode, hrest⟩ := segment_cons_iff.mp h
    rw [List.map_cons, List.nodup_cons]
    refine ⟨?_, ih hrest⟩
    intro ha
    obtain ⟨⟨b, w⟩, hb, rfl⟩ := List.mem_map.mp ha
    obtain ⟨front, back, rfl⟩ := List.append_of_mem hb
    obtain ⟨-, s, hnode', hback⟩ := segment_middle_iff.mp hrest
    have hagain : Segment node (some b) ((b, w) :: back) none := .cons hnode' hback
    have hlength := congrArg List.length (h.unique hagain)
    simp only [List.length_cons, List.length_append] at hlength
    omega

section Updates

variable [DecidableEq α]

theorem Segment.update (h : Segment node p l q) (ha : a ∉ l.map Prod.fst)
    (c : Option (ν × Option α)) :
    Segment (Function.update node a c) p l q := by
  apply h.congr
  intro b hb
  apply Function.update_of_ne
  rintro rfl
  exact ha hb

/-- To free a node that the walk does not visit. -/
theorem Segment.free (h : Segment node p l q) (ha : a ∉ l.map Prod.fst) :
    Segment (Function.update node a none) p l q := h.update ha none

/-- A new node, and a pointer to it in the last one. -/
theorem Segment.extend (h : Segment node p (l ++ [(a, v)]) none) (hb : node b = none) (w : ν) :
    Segment (Function.update (Function.update node b (some (w, none))) a (some (v, some b))) p
      (l ++ [(a, v), (b, w)]) none := by
  have hnodup := h.nodup
  obtain ⟨hl, r, hnode, -⟩ := segment_middle_iff.mp h
  have hab : b ≠ a := by
    rintro rfl
    simp [hb] at hnode
  have hbl : b ∉ l.map Prod.fst := fun hmem => hl.live hmem hb
  have hal : a ∉ l.map Prod.fst := by
    rw [List.map_append, List.nodup_append] at hnodup
    intro hmem
    exact hnodup.2.2 a hmem a (by simp) rfl
  rw [segment_middle_iff]
  refine ⟨(hl.update hbl _).update hal _, some b, by simp, ?_⟩
  apply Segment.cons _ (.nil none)
  rw [Function.update_of_ne hab, Function.update_self]

end Updates

end LinkedNodes
