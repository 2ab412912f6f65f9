import CloudSsh.InterruptedPrograms
import Mathlib.Data.List.Infix

/-!
# Transfers through a buffer

A program takes data from a source into a buffer and offers the buffer to a sink, which accepts a
first part of what it is offered. A log is read as such a transfer. The program is in order if
everything it offers is exactly what was taken and has not been accepted yet.
-/
namespace BufferedTransfers
open InterruptedPrograms

variable {ε β : Type}

/-- What an offer of `len` elements is answered: how many are accepted, or a negative code. -/
abbrev Accepted (len : ℕ) := {i : Int // i ≤ len}

/-- What the entries of a log have to do with one transfer: what they take from the source, and what
they offer to the sink, with the number of elements it accepts. No entry does both. -/
structure Reading (ε β : Type) where
  taken : ε → List β
  offer : ε → Option (List β × ℕ)
  taken_nil : ∀ e o, offer e = some o → taken e = []

namespace Reading

variable (R : Reading ε β) {l l' : List ε} {e : ε} {b p : List β} {k : ℕ}

def sent (e : ε) : List β := ((R.offer e).map fun o => o.1.take o.2).getD []

def takenOf (l : List ε) : List β := l.flatMap R.taken

def sentOf (l : List ε) : List β := l.flatMap R.sent

@[simp] theorem takenOf_nil : R.takenOf [] = [] := rfl

@[simp] theorem sentOf_nil : R.sentOf [] = [] := rfl

@[simp] theorem takenOf_append (l l' : List ε) :
    R.takenOf (l ++ l') = R.takenOf l ++ R.takenOf l' :=
  List.flatMap_append

@[simp] theorem sentOf_append (l l' : List ε) : R.sentOf (l ++ l') = R.sentOf l ++ R.sentOf l' :=
  List.flatMap_append

@[simp] theorem takenOf_singleton (e : ε) : R.takenOf [e] = R.taken e := by simp [takenOf]

@[simp] theorem sentOf_singleton (e : ε) : R.sentOf [e] = R.sent e := by simp [sentOf]

theorem sent_of_offer (h : R.offer e = some (b, k)) : R.sent e = b.take k := by simp [sent, h]

theorem sent_of_none (h : R.offer e = none) : R.sent e = [] := by simp [sent, h]

/-- What the entry offers is what has been taken before and not been accepted. -/
def InOrder (before : List ε) (e : ε) : Prop :=
  ∀ b k, R.offer e = some (b, k) → R.takenOf before = R.sentOf before ++ b

/-- Between two entries, `p` waits to be accepted. -/
def Pending (p : List β) (l : List ε) : Prop := R.takenOf l = R.sentOf l ++ p

variable {R}

theorem pending_nil : R.Pending [] [] := rfl

theorem Pending.all_sent (h : R.Pending [] l) : R.sentOf l = R.takenOf l := by
  rw [Pending, List.append_nil] at h
  exact h.symm

theorem Pending.ne (h : R.Pending p l) (hp : p ≠ []) : R.sentOf l ≠ R.takenOf l := by
  intro heq
  rw [Pending, heq] at h
  exact hp (List.self_eq_append_right.mp h)

theorem Pending.unique (h : R.Pending p l) (h' : R.Pending b l) : p = b :=
  List.append_cancel_left (h.symm.trans h')

theorem Pending.inOrder (h : R.Pending p l) (ho : R.offer e = some (p, k)) : R.InOrder l e := by
  intro b j hb
  obtain ⟨rfl, -⟩ := Prod.mk.inj (Option.some.inj (ho.symm.trans hb))
  exact h

theorem inOrder_of_none (ho : R.offer e = none) : R.InOrder l e := by
  intro b k hb
  rw [ho] at hb
  cases hb

/-- An entry that has nothing to do with the transfer. -/
theorem Pending.quiet (h : R.Pending p l) (ho : R.offer e = none) (ht : R.taken e = []) :
    R.Pending p (l ++ [e]) := by
  rw [Pending] at h ⊢
  simp [h, ht, R.sent_of_none ho]

/-- What is taken waits behind the rest. -/
theorem Pending.take (h : R.Pending p l) (ho : R.offer e = none) :
    R.Pending (p ++ R.taken e) (l ++ [e]) := by
  rw [Pending] at h ⊢
  simp [h, R.sent_of_none ho]

/-- What is accepted of an offer no longer waits. -/
theorem Pending.accept (h : R.Pending p l) (ho : R.offer e = some (p, k)) :
    R.Pending (p.drop k) (l ++ [e]) := by
  rw [Pending] at h ⊢
  simp [h, R.taken_nil e _ ho, R.sent_of_offer ho]

/-- Between two entries, `p` waits to be accepted, and what waited before was accepted in part: all
of it if and only if no entry was `Bad`. -/
def Loosely (R : Reading ε β) (Bad : ε → Prop) (p : List β) (l : List ε) : Prop :=
  ∃ t, R.takenOf l = t ++ p ∧ (R.sentOf l).Sublist t ∧ (R.sentOf l = t ↔ ∀ e ∈ l, ¬ Bad e)

section Loosely

variable {Bad : ε → Prop}

theorem loosely_nil : R.Loosely Bad [] [] := ⟨[], rfl, List.Sublist.refl _, by simp⟩

theorem Loosely.all_sent_iff (h : R.Loosely Bad [] l) :
    R.sentOf l = R.takenOf l ↔ ∀ e ∈ l, ¬ Bad e := by
  obtain ⟨t, ht, -, hiff⟩ := h
  rw [ht, List.append_nil]
  exact hiff

private theorem forall_concat (he : ¬ Bad e) : (∀ x ∈ l ++ [e], ¬ Bad x) ↔ ∀ x ∈ l, ¬ Bad x := by
  simp [or_imp, forall_and, he]

theorem Loosely.take (h : R.Loosely Bad p l) (ho : R.offer e = none) (he : ¬ Bad e) :
    R.Loosely Bad (p ++ R.taken e) (l ++ [e]) := by
  obtain ⟨t, ht, hsub, hiff⟩ := h
  refine ⟨t, by simp [ht], ?_, ?_⟩
  · simpa [R.sent_of_none ho] using hsub
  · rw [forall_concat he, ← hiff]
    simp [R.sent_of_none ho]

theorem Loosely.quiet (h : R.Loosely Bad p l) (ho : R.offer e = none) (ht : R.taken e = [])
    (he : ¬ Bad e) : R.Loosely Bad p (l ++ [e]) := by
  have htake := h.take ho he
  rwa [ht, List.append_nil] at htake

theorem Loosely.accept (h : R.Loosely Bad p l) (ho : R.offer e = some (p, k)) (he : ¬ Bad e) :
    R.Loosely Bad (p.drop k) (l ++ [e]) := by
  obtain ⟨t, ht, hsub, hiff⟩ := h
  have hsent : R.sentOf (l ++ [e]) = R.sentOf l ++ p.take k := by simp [R.sent_of_offer ho]
  refine ⟨t ++ p.take k, by simp [ht, R.taken_nil e _ ho], ?_, ?_⟩
  · rw [hsent]
    exact hsub.append (List.Sublist.refl _)
  · rw [forall_concat he, ← hiff, hsent]
    exact List.append_left_inj _

/-- What is not accepted of an offer is given up. -/
theorem Loosely.lose (h : R.Loosely Bad p l) (ho : R.offer e = some (p, k)) (he : Bad e)
    (hk : k < p.length) : R.Loosely Bad [] (l ++ [e]) := by
  obtain ⟨t, ht, hsub, -⟩ := h
  have hsent : R.sentOf (l ++ [e]) = R.sentOf l ++ p.take k := by simp [R.sent_of_offer ho]
  refine ⟨t ++ p, by simp [ht, R.taken_nil e _ ho], ?_, ?_⟩
  · rw [hsent]
    exact hsub.append (List.take_sublist k p)
  · rw [hsent]
    apply iff_of_false
    · intro heq
      have hlen := congrArg List.length heq
      have hle := hsub.length_le
      simp only [List.length_append, List.length_take] at hlen
      omega
    · intro hall
      exact hall e (by simp) he

/-- What the entry offers waits loosely. -/
def LooselyInOrder (R : Reading ε β) (Bad : ε → Prop) (before : List ε) (e : ε) : Prop :=
  ∀ b k, R.offer e = some (b, k) → R.Loosely Bad b before

/-- A program that gives up parts of what it took has had the others accepted in order, at every
moment of its run. -/
theorem sent_sublist (h : Throughout (R.LooselyInOrder Bad) l) :
    (R.sentOf l).Sublist (R.takenOf l) := by
  induction l using List.reverseRecOn with
  | nil => exact List.Sublist.refl _
  | append_singleton l e ih =>
    simp only [sentOf_append, takenOf_append, sentOf_singleton, takenOf_singleton]
    cases ho : R.offer e with
    | none =>
      rw [R.sent_of_none ho, List.append_nil]
      exact (ih h.init).trans (List.sublist_append_left _ _)
    | some o =>
      obtain ⟨b, k⟩ := o
      obtain ⟨t, ht, hsub, -⟩ := h.last b k ho
      rw [ht, R.taken_nil e _ ho, List.append_nil, R.sent_of_offer ho]
      exact hsub.append (List.take_sublist k b)

end Loosely

/-- A program whose offers are all in order has had a first part of what it took accepted, at every
moment of its run. -/
theorem sent_prefix (h : Throughout R.InOrder l) : R.sentOf l <+: R.takenOf l := by
  induction l using List.reverseRecOn with
  | nil => exact List.prefix_refl _
  | append_singleton l e ih =>
    simp only [sentOf_append, takenOf_append, sentOf_singleton, takenOf_singleton]
    cases ho : R.offer e with
    | none =>
      rw [R.sent_of_none ho, List.append_nil]
      exact (ih h.init).trans (List.prefix_append _ _)
    | some o =>
      obtain ⟨b, k⟩ := o
      rw [h.last b k ho, R.taken_nil e _ ho, List.append_nil, R.sent_of_offer ho]
      exact (List.prefix_append_right_inj _).mpr (List.take_prefix k b)

end Reading

end BufferedTransfers
