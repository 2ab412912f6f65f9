import Mathlib.Data.List.Basic
import Mathlib.Logic.Relation
import Mathlib.Data.Multiset.AddSub

/-!
# Resources in a trace of calls

A call may hand a resource out on top of another, take one back, or give a resource
another one to work on in place of the one it was given before. A trace then tells what
was acquired and released and what depends on what, and hence whether releases came in
the right order and nothing was used after its release.
-/
namespace ResourceTraces

inductive Effect (ρ : Type) where
  | plain
  | acquire (r : ρ) (on : Option ρ)
  | release (r : ρ)
  | give (r base : ρ)
  deriving DecidableEq

/-- What calls do, and the handles they are given, a null handle being `none`. A simple resource
depends on nothing. -/
class Calls (ε : Type) (ρ : outParam Type) where
  effect : ε → Effect ρ
  handles : ε → List (Option ρ)
  Simple : ρ → Prop
  handles_release {x : ε} {r : ρ} : effect x = .release r → handles x = [some r]
  handles_acquire {x : ε} {r r' : ρ} : effect x = .acquire r (some r') → some r' ∈ handles x
  handles_give {x : ε} {r r' : ρ} :
    effect x = .give r r' → some r ∈ handles x ∧ some r' ∈ handles x
  acquire_simple {x : ε} {r : ρ} {on : Option ρ} : effect x = .acquire r on → Simple r → on = none
  give_simple {x : ε} {r r' : ρ} : effect x = .give r r' → ¬ Simple r

open Calls Relation

variable {ε ρ : Type} [Calls ε ρ] {tr before after : List ε} {x : ε} {r r' : ρ}

def Acquired (tr : List ε) (r : ρ) : Prop := ∃ x ∈ tr, ∃ on, effect x = .acquire r on

def Released (tr : List ε) (r : ρ) : Prop := ∃ x ∈ tr, effect x = .release r

def StandsOn (tr : List ε) (r r' : ρ) : Prop := ∃ x ∈ tr, effect x = .acquire r (some r')

/-- The last call that gave `r` something gave it `r'`. -/
def LastGiven (tr : List ε) (r r' : ρ) : Prop :=
  ∃ before x after, tr = before ++ x :: after ∧ effect x = .give r r' ∧
    ∀ y ∈ after, ∀ r'', effect y ≠ .give r r''

def ReliesOn (tr : List ε) (r r' : ρ) : Prop := StandsOn tr r r' ∨ LastGiven tr r r'

/-- What depends on a resource is released before it. -/
def Ordered (tr : List ε) : Prop :=
  ∀ before x after r r', tr = before ++ x :: after → effect x = .release r' →
    ReliesOn tr r r' → Released before r

/-- No call is given a handle that was released, or that depends on one that was. -/
def NoUseAfterRelease (tr : List ε) : Prop :=
  ∀ before x after r r', tr = before ++ x :: after → some r ∈ handles x →
    ReflTransGen (ReliesOn (before ++ [x])) r r' → ¬ Released before r'

def ReleasedOnce (tr : List ε) : Prop :=
  ∀ before x after r, tr = before ++ x :: after → effect x = .release r → ¬ Released before r

@[simp] theorem acquired_nil : ¬ Acquired ([] : List ε) r := by simp [Acquired]

@[simp] theorem released_nil : ¬ Released ([] : List ε) r := by simp [Released]

@[simp] theorem acquired_concat :
    Acquired (tr ++ [x]) r ↔ Acquired tr r ∨ ∃ on, effect x = .acquire r on := by
  simp [Acquired, or_and_right, exists_or]

@[simp] theorem released_concat :
    Released (tr ++ [x]) r ↔ Released tr r ∨ effect x = .release r := by
  simp [Released, or_and_right, exists_or]

@[simp] theorem standsOn_concat :
    StandsOn (tr ++ [x]) r r' ↔ StandsOn tr r r' ∨ effect x = .acquire r (some r') := by
  simp [StandsOn, or_and_right, exists_or]

theorem StandsOn.acquired (h : StandsOn tr r r') : Acquired tr r := by
  obtain ⟨x, hx, he⟩ := h
  exact ⟨x, hx, _, he⟩

@[simp] theorem not_lastGiven_nil : ¬ LastGiven ([] : List ε) r r' := by
  rintro ⟨before, x, after, h, -⟩
  simp at h

/-- A place in a trace with one more call is in the trace or is that call. -/
theorem concat_eq_append_cons {y : ε} :
    tr ++ [x] = before ++ y :: after ↔
      (after = [] ∧ before = tr ∧ y = x) ∨
        ∃ rest, after = rest ++ [x] ∧ tr = before ++ y :: rest := by
  rcases List.eq_nil_or_concat after with rfl | ⟨rest, z, rfl⟩
  · rw [List.append_singleton_inj]
    constructor
    · rintro ⟨rfl, rfl⟩
      exact .inl ⟨rfl, rfl, rfl⟩
    · rintro (⟨-, rfl, rfl⟩ | ⟨rest, h, -⟩)
      · exact ⟨rfl, rfl⟩
      · simp at h
  · have he : before ++ y :: rest.concat z = (before ++ y :: rest) ++ [z] := by simp
    rw [he, List.append_singleton_inj]
    constructor
    · rintro ⟨rfl, rfl⟩
      exact .inr ⟨rest, by simp, rfl⟩
    · rintro (⟨h, -⟩ | ⟨rest', h, h'⟩)
      · simp at h
      · obtain ⟨rfl, rfl⟩ := List.append_singleton_inj.mp (List.concat_eq_append.symm.trans h)
        exact ⟨h', rfl⟩

theorem lastGiven_concat :
    LastGiven (tr ++ [x]) r r' ↔
      effect x = .give r r' ∨ LastGiven tr r r' ∧ ∀ r'', effect x ≠ .give r r'' := by
  constructor
  · rintro ⟨before, y, after, h, hy, hafter⟩
    rcases concat_eq_append_cons.mp h with ⟨-, -, rfl⟩ | ⟨rest, rfl, rfl⟩
    · exact .inl hy
    · exact .inr ⟨⟨before, y, rest, rfl, hy, fun z hz => hafter z (by simp [hz])⟩,
        hafter x (by simp)⟩
  · rintro (hx | ⟨⟨before, y, after, rfl, hy, hafter⟩, hx⟩)
    · exact ⟨tr, x, [], rfl, hx, by simp⟩
    · refine ⟨before, y, after ++ [x], by simp, hy, fun z hz => ?_⟩
      rcases List.mem_append.mp hz with hz | hz
      · exact hafter z hz
      · rw [List.mem_singleton.mp hz]
        exact hx

theorem LastGiven.mem (h : LastGiven tr r r') : ∃ x ∈ tr, effect x = .give r r' := by
  obtain ⟨before, x, after, rfl, hx, -⟩ := h
  exact ⟨x, by simp, hx⟩

theorem not_reliesOn_of_simple (hr : Simple ε r) : ¬ ReliesOn tr r r' := by
  rintro (⟨x, -, hx⟩ | h)
  · simpa using acquire_simple hx hr
  · obtain ⟨x, -, hx⟩ := h.mem
    exact give_simple hx hr

theorem noUse_concat :
    NoUseAfterRelease (tr ++ [x]) ↔ NoUseAfterRelease tr ∧
      ∀ r r', some r ∈ handles x → ReflTransGen (ReliesOn (tr ++ [x])) r r' →
        ¬ Released tr r' := by
  constructor
  · intro h
    refine ⟨fun before y after r r' he => ?_, fun r r' => h tr x [] r r' rfl⟩
    exact h before y (after ++ [x]) r r' (by simp [he])
  · rintro ⟨htr, hx⟩ before y after r r' he
    rcases concat_eq_append_cons.mp he with ⟨-, rfl, rfl⟩ | ⟨rest, -, rfl⟩
    · exact hx r r'
    · exact htr before y rest r r' rfl

theorem releasedOnce_concat :
    ReleasedOnce (tr ++ [x]) ↔ ReleasedOnce tr ∧
      ∀ r, effect x = .release r → ¬ Released tr r := by
  constructor
  · intro h
    refine ⟨fun before y after r he => ?_, fun r => h tr x [] r rfl⟩
    exact h before y (after ++ [x]) r (by simp [he])
  · rintro ⟨htr, hx⟩ before y after r he
    rcases concat_eq_append_cons.mp he with ⟨-, rfl, rfl⟩ | ⟨rest, -, rfl⟩
    · exact hx r
    · exact htr before y rest r rfl

/-- A resource that is released once is released at one place. -/
theorem ReleasedOnce.unique {before' after' : List ε} {y : ε} (h : ReleasedOnce tr)
    (hx : tr = before ++ x :: after) (hr : effect x = .release r)
    (hy : tr = before' ++ y :: after') (hr' : effect y = .release r) : before' = before := by
  have hlater : ∀ {u v u' v' : List ε} {z w : ε}, tr = u ++ z :: v → effect z = .release r →
      tr = u' ++ w :: v' → effect w = .release r → ¬ u.length < u'.length := by
    intro u v u' v' z w hz hzr hw hwr hlt
    refine h _ _ _ r hw hwr ⟨z, ?_, hzr⟩
    have hget : tr[u.length]? = some z := by simp [hz]
    rw [hw, List.getElem?_append_left hlt] at hget
    exact List.mem_of_getElem? hget
  refine (List.append_inj (hy.symm.trans hx) ?_).1
  exact Nat.le_antisymm (Nat.not_lt.mp (hlater hx hr hy hr')) (Nat.not_lt.mp (hlater hy hr' hx hr))

theorem ReleasedOnce.existsUnique (h : ReleasedOnce tr) (hr : Released tr r) :
    ∃! i : ℕ, ∃ x, tr[i]? = some x ∧ effect x = .release r := by
  have hsplit : ∀ {k : ℕ} {z : ε}, tr[k]? = some z →
      tr = tr.take k ++ z :: tr.drop (k + 1) ∧ (tr.take k).length = k := by
    intro k z hz
    obtain ⟨hlt, rfl⟩ := List.getElem?_eq_some_iff.mp hz
    exact ⟨by rw [← List.drop_eq_getElem_cons hlt, List.take_append_drop],
      List.length_take_of_le (Nat.le_of_lt hlt)⟩
  obtain ⟨x, hx, he⟩ := hr
  obtain ⟨i, hi⟩ := List.mem_iff_getElem?.mp hx
  refine ⟨i, ⟨x, hi, he⟩, ?_⟩
  rintro j ⟨y, hj, hy⟩
  have hsame := congrArg List.length (h.unique (hsplit hi).1 he (hsplit hj).1 hy)
  rwa [(hsplit hi).2, (hsplit hj).2] at hsame

/-! ## What is outstanding -/

section Outstanding

variable [DecidableEq ρ] {m : Multiset ρ}

def tally (m : Multiset ρ) (x : ε) : Multiset ρ :=
  match effect x with
  | .acquire r _ => r ::ₘ m
  | .release r => m.erase r
  | _ => m

/-- What a trace of calls makes of the resources that were outstanding before it. -/
def tallyAll (m : Multiset ρ) (tr : List ε) : Multiset ρ := tr.foldl tally m

def outstanding (tr : List ε) : Multiset ρ := tallyAll 0 tr

@[simp] theorem tallyAll_nil : tallyAll m ([] : List ε) = m := rfl

@[simp] theorem tallyAll_cons : tallyAll m (x :: tr) = tallyAll (tally m x) tr := rfl

@[simp] theorem tallyAll_append (tr tr' : List ε) :
    tallyAll m (tr ++ tr') = tallyAll (tallyAll m tr) tr' := List.foldl_append

theorem tallyAll_of_idle (h : ∀ x ∈ tr, ∀ m, tally m x = m) : tallyAll m tr = m := by
  induction tr with
  | nil => rfl
  | cons x tr ih =>
    rw [tallyAll_cons, h x List.mem_cons_self]
    exact ih fun y hy => h y (List.mem_cons_of_mem _ hy)

end Outstanding

end ResourceTraces
