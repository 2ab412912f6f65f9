import CloudSsh.ResourceTraces

/-!
# Ownership ledgers

Objects each own at most one resource, which they give back when they go, and hold each
other. The ledger relates the objects that there are to the trace of calls: an owned
resource is in use, a resource that was not given back has an owner (simple ones may go
without), and what an owned resource depends on is owned by a member of its owner. While
a resource is about to be given another one to work on, it is `busy`, and the one it was
given before does not count. The theorems say what keeps the ledger.
-/
namespace OwnershipLedger
open ResourceTraces Calls Relation

structure Ownership (α ω ρ : Type) where
  raw : ω → Option ρ
  members : ω → List α

variable {α ω ρ ε : Type} [Calls ε ρ] {O : Ownership α ω ρ} {objs : List (α × ω)} {tr : List ε}
  {busy : Option ρ} {x : ε} {r r' : ρ} {a : α} {o o' : ω}

def Held (O : Ownership α ω ρ) (objs : List (α × ω)) (r : ρ) : Prop :=
  ∃ p ∈ objs, O.raw p.2 = some r

/-- A dependency that counts. -/
def Due (tr : List ε) (busy : Option ρ) (r r' : ρ) : Prop :=
  StandsOn tr r r' ∨ LastGiven tr r r' ∧ busy ≠ some r

theorem due_none : Due tr none r r' ↔ ReliesOn tr r r' := by simp [Due, ReliesOn]

theorem Due.reliesOn (h : Due tr busy r r') : ReliesOn tr r r' := h.imp_right And.left

/-- What a call may be given. -/
def Usable (O : Ownership α ω ρ) (objs : List (α × ω)) (tr : List ε) (r : ρ) : Prop :=
  Held O objs r ∨ Simple ε r ∧ ¬ Released tr r

structure Ledger (O : Ownership α ω ρ) (objs : List (α × ω)) (tr : List ε) (busy : Option ρ) :
    Prop where
  released : ∀ r, Released tr r → Acquired tr r
  given : ∀ r r', LastGiven tr r r' → Acquired tr r
  unique : ∀ p ∈ objs, ∀ q ∈ objs, ∀ r, O.raw p.2 = some r → O.raw q.2 = some r → p.1 = q.1
  live : ∀ p ∈ objs, ∀ r, O.raw p.2 = some r → Acquired tr r ∧ ¬ Released tr r
  covered : ∀ r, Acquired tr r → ¬ Simple ε r → Released tr r ∨ Held O objs r
  linked : ∀ p ∈ objs, ∀ r r', O.raw p.2 = some r → Due tr busy r r' →
    ∃ q ∈ objs, q.1 ∈ O.members p.2 ∧ O.raw q.2 = some r'
  ordered : ∀ before x after r r', tr = before ++ x :: after → effect x = .release r' →
    Due tr busy r r' → Released before r
  noUse : NoUseAfterRelease tr
  once : ReleasedOnce tr

namespace Ledger

theorem empty : Ledger O [] ([] : List ε) none where
  released := by simp
  given := by simp
  unique := by simp
  live := by simp
  covered := by simp
  linked := by simp
  ordered := by simp
  noUse := by intro before x after r r' h; simp at h
  once := by intro before x after r h; simp at h

theorem isOrdered (L : Ledger O objs tr none) : Ordered tr := fun before x after r r' he hx h =>
  L.ordered before x after r r' he hx (due_none.mpr h)

theorem not_released (L : Ledger O objs tr busy) (r : ρ) (h : Held O objs r) : ¬ Released tr r := by
  obtain ⟨p, hp, h⟩ := h
  exact (L.live p hp r h).2

theorem acquired_of_due (L : Ledger O objs tr busy) (h : Due tr busy r r') : Acquired tr r := by
  rcases h with h | ⟨h, -⟩
  · exact h.acquired
  · exact L.given r r' h

end Ledger

/-- Everything that an owned resource depends on is owned. -/
theorem held_of_reliesOn
    (linked : ∀ r r', Held O objs r → ReliesOn tr r r' → Held O objs r')
    (hr : Held O objs r) (h : ReflTransGen (ReliesOn tr) r r') : Held O objs r' := by
  induction h with
  | refl => exact hr
  | tail _ h ih => exact linked _ _ ih h

theorem eq_of_simple (hr : Simple ε r) (h : ReflTransGen (ReliesOn tr) r r') : r' = r := by
  induction h with
  | refl => rfl
  | tail _ h ih => exact absurd h (by rw [ih]; exact not_reliesOn_of_simple hr)

/-- A call whose handles are usable when it is over was given nothing that was released. -/
theorem noUse_of_usable (objs : List (α × ω)) (hno : NoUseAfterRelease tr)
    (linked : ∀ r r', Held O objs r → ReliesOn (tr ++ [x]) r r' → Held O objs r')
    (live : ∀ r, Held O objs r → ¬ Released tr r)
    (hx : ∀ r, some r ∈ handles x → Usable O objs tr r) : NoUseAfterRelease (tr ++ [x]) := by
  refine noUse_concat.mpr ⟨hno, fun r r' hr h => ?_⟩
  rcases hx r hr with hheld | ⟨hsimple, hnot⟩
  · exact live r' (held_of_reliesOn linked hheld h)
  · rw [eq_of_simple hsimple h]
    exact hnot

/-- A call that releases nothing keeps the order if it adds no dependency on what was released. -/
theorem ordered_of_not_release {busy' : Option ρ}
    (ho : ∀ before x after r r', tr = before ++ x :: after → effect x = .release r' →
      Due tr busy r r' → Released before r)
    (hx : ∀ r, effect x ≠ .release r)
    (hdue : ∀ r r', Due (tr ++ [x]) busy' r r' → Released tr r' → Due tr busy r r') :
    ∀ before y after r r', tr ++ [x] = before ++ y :: after → effect y = .release r' →
      Due (tr ++ [x]) busy' r r' → Released before r := by
  intro before y after r r' he hy hd
  rcases concat_eq_append_cons.mp he with ⟨-, -, rfl⟩ | ⟨rest, -, rfl⟩
  · exact absurd hy (hx r')
  · exact ho before y rest r r' rfl hy (hdue r r' hd ⟨y, by simp, hy⟩)

/-- The object at `a` changes into `o'`. -/
structure Replaced (objs objs' : List (α × ω)) (a : α) (o o' : ω) : Prop where
  old : (a, o) ∈ objs
  new : (a, o') ∈ objs'
  back : ∀ p ∈ objs', p = (a, o') ∨ p ∈ objs ∧ p.1 ≠ a
  forth : ∀ p ∈ objs, p = (a, o) ∨ p ∈ objs' ∧ p.1 ≠ a

/-- The object at `a` goes; no other object holds it. -/
structure Removed (O : Ownership α ω ρ) (objs objs' : List (α × ω)) (a : α) (o : ω) : Prop where
  old : (a, o) ∈ objs
  back : ∀ p ∈ objs', p ∈ objs ∧ p.1 ≠ a
  forth : ∀ p ∈ objs, p = (a, o) ∨ p ∈ objs'
  sole : ∀ p ∈ objs, a ∉ O.members p.2

private theorem Removed.member {objs' : List (α × ω)} (hr : Removed O objs objs' a o)
    {p q : α × ω} (hp : p ∈ objs) (hq : q ∈ objs) (hm : q.1 ∈ O.members p.2) : q ∈ objs' := by
  rcases hr.forth q hq with rfl | hq
  · exact absurd hm (hr.sole p hp)
  · exact hq

namespace Ledger

/-- A call that changes nothing. -/
theorem plain (L : Ledger O objs tr none) (hx : effect x = .plain)
    (hh : ∀ r, some r ∈ handles x → Usable O objs tr r) : Ledger O objs (tr ++ [x]) none := by
  have hdue : ∀ r r', Due (tr ++ [x]) none r r' → Due tr none r r' := by
    intro r r' h
    simpa [Due, lastGiven_concat, hx] using h
  have hheld : ∀ r r', Held O objs r → ReliesOn (tr ++ [x]) r r' → Held O objs r' := by
    rintro r r' ⟨p, hp, hr⟩ h
    obtain ⟨q, hq, -, hr'⟩ := L.linked p hp r r' hr (hdue r r' (due_none.mpr h))
    exact ⟨q, hq, hr'⟩
  exact {
    released := by simpa [hx] using L.released
    given := by simpa [hx, lastGiven_concat] using L.given
    unique := L.unique
    live := by simpa [hx] using L.live
    covered := by simpa [hx] using L.covered
    linked := fun p hp r r' hr h => L.linked p hp r r' hr (hdue r r' h)
    ordered := ordered_of_not_release L.ordered (by simp [hx]) fun r r' h _ => hdue r r' h
    noUse := noUse_of_usable objs L.noUse hheld L.not_released hh
    once := releasedOnce_concat.mpr ⟨L.once, by simp [hx]⟩ }

private theorem due_of_acquire {on : Option ρ} (hx : effect x = .acquire r on) {r₁ r₂ : ρ}
    (h : Due (tr ++ [x]) busy r₁ r₂) : Due tr busy r₁ r₂ ∨ r = r₁ ∧ on = some r₂ := by
  simpa [Due, lastGiven_concat, hx, or_right_comm] using h

/-- A simple resource is handed out, at first without an owner. -/
theorem obtain (L : Ledger O objs tr none) (hx : effect x = .acquire r none)
    (hr : Simple ε r)
    (hh : ∀ r, some r ∈ handles x → Usable O objs tr r) : Ledger O objs (tr ++ [x]) none := by
  have hdue : ∀ r₁ r₂, Due (tr ++ [x]) none r₁ r₂ → Due tr none r₁ r₂ := by
    intro r₁ r₂ h
    exact (due_of_acquire hx h).resolve_right (by simp)
  have hheld : ∀ r₁ r₂, Held O objs r₁ → ReliesOn (tr ++ [x]) r₁ r₂ → Held O objs r₂ := by
    rintro r₁ r₂ ⟨p, hp, h₁⟩ h
    obtain ⟨q, hq, -, h₂⟩ := L.linked p hp r₁ r₂ h₁ (hdue r₁ r₂ (due_none.mpr h))
    exact ⟨q, hq, h₂⟩
  exact {
    released := fun r₁ h => acquired_concat.mpr (.inl (L.released r₁ (by simpa [hx] using h)))
    given := fun r₁ r₂ h =>
      acquired_concat.mpr (.inl (L.given r₁ r₂ (by simpa [hx, lastGiven_concat] using h)))
    unique := L.unique
    live := fun p hp r₁ h₁ => by
      simpa [hx] using ⟨.inl (L.live p hp r₁ h₁).1, (L.live p hp r₁ h₁).2⟩
    covered := fun r₁ h₁ hs => by
      have hne : r ≠ r₁ := fun h => hs (h ▸ hr)
      simpa [hx] using L.covered r₁ (by simpa [hx, hne] using h₁) hs
    linked := fun p hp r₁ r₂ h₁ h => L.linked p hp r₁ r₂ h₁ (hdue r₁ r₂ h)
    ordered := ordered_of_not_release L.ordered (by simp [hx]) fun r₁ r₂ h _ => hdue r₁ r₂ h
    noUse := noUse_of_usable objs L.noUse hheld L.not_released hh
    once := releasedOnce_concat.mpr ⟨L.once, by simp [hx]⟩ }

/-- A resource is handed out to a new object, one of whose members owns what it stands on. -/
theorem create {on : Option ρ} (L : Ledger O objs tr none) (hx : effect x = .acquire r on)
    (hnew : ¬ Acquired tr r) (ho : O.raw o = some r)
    (hon : ∀ r', on = some r' → ∃ q ∈ objs, q.1 ∈ O.members o ∧ O.raw q.2 = some r')
    (hh : ∀ r, some r ∈ handles x → Usable O objs tr r) :
    Ledger O ((a, o) :: objs) (tr ++ [x]) none := by
  have hlive : ∀ p ∈ (a, o) :: objs, ∀ r₁, O.raw p.2 = some r₁ →
      Acquired (tr ++ [x]) r₁ ∧ ¬ Released (tr ++ [x]) r₁ := by
    intro p hp r₁ h₁
    rcases List.mem_cons.mp hp with rfl | hp
    · obtain rfl : r = r₁ := Option.some.inj (ho.symm.trans h₁)
      exact ⟨acquired_concat.mpr (.inr ⟨on, hx⟩),
        fun h => hnew (L.released r (by simpa [hx] using h))⟩
    · simpa [hx] using ⟨.inl (L.live p hp r₁ h₁).1, (L.live p hp r₁ h₁).2⟩
  have hlinked : ∀ p ∈ (a, o) :: objs, ∀ r₁ r₂, O.raw p.2 = some r₁ → Due (tr ++ [x]) none r₁ r₂ →
      ∃ q ∈ (a, o) :: objs, q.1 ∈ O.members p.2 ∧ O.raw q.2 = some r₂ := by
    intro p hp r₁ r₂ h₁ h
    rcases List.mem_cons.mp hp with rfl | hp
    · obtain rfl : r = r₁ := Option.some.inj (ho.symm.trans h₁)
      rcases due_of_acquire hx h with h | ⟨-, h⟩
      · exact absurd (L.acquired_of_due h) hnew
      · obtain ⟨q, hq, hm, h₂⟩ := hon r₂ h
        exact ⟨q, List.mem_cons_of_mem _ hq, hm, h₂⟩
    · rcases due_of_acquire hx h with h | ⟨rfl, -⟩
      · obtain ⟨q, hq, hm, h₂⟩ := L.linked p hp r₁ r₂ h₁ h
        exact ⟨q, List.mem_cons_of_mem _ hq, hm, h₂⟩
      · exact absurd (L.live p hp r h₁).1 hnew
  exact {
    released := fun r₁ h => acquired_concat.mpr (.inl (L.released r₁ (by simpa [hx] using h)))
    given := fun r₁ r₂ h =>
      acquired_concat.mpr (.inl (L.given r₁ r₂ (by simpa [hx, lastGiven_concat] using h)))
    unique := by
      intro p hp q hq r₁ h₁ h₂
      rcases List.mem_cons.mp hp with rfl | hp' <;> rcases List.mem_cons.mp hq with rfl | hq'
      · rfl
      · obtain rfl : r = r₁ := Option.some.inj (ho.symm.trans h₁)
        exact absurd (L.live q hq' r h₂).1 hnew
      · obtain rfl : r = r₁ := Option.some.inj (ho.symm.trans h₂)
        exact absurd (L.live p hp' r h₁).1 hnew
      · exact L.unique p hp' q hq' r₁ h₁ h₂
    live := hlive
    covered := by
      intro r₁ h₁ hs
      rcases acquired_concat.mp h₁ with h₁ | ⟨on', h₁⟩
      · rcases L.covered r₁ h₁ hs with h | ⟨q, hq, h⟩
        · exact .inl (released_concat.mpr (.inl h))
        · exact .inr ⟨q, List.mem_cons_of_mem _ hq, h⟩
      · obtain ⟨rfl, -⟩ : r = r₁ ∧ on = on' := by simpa [hx] using h₁
        exact .inr ⟨(a, o), List.mem_cons_self, ho⟩
    linked := hlinked
    ordered := by
      refine ordered_of_not_release L.ordered (by simp [hx]) fun r₁ r₂ h hrel => ?_
      rcases due_of_acquire hx h with h | ⟨-, h⟩
      · exact h
      · obtain ⟨q, hq, -, h₂⟩ := hon r₂ h
        exact absurd hrel (L.live q hq r₂ h₂).2
    noUse := by
      refine noUse_of_usable ((a, o) :: objs) L.noUse (O := O) ?_ ?_ ?_
      · rintro r₁ r₂ ⟨p, hp, h₁⟩ h
        obtain ⟨q, hq, -, h₂⟩ := hlinked p hp r₁ r₂ h₁ (due_none.mpr h)
        exact ⟨q, hq, h₂⟩
      · rintro r₁ ⟨p, hp, h₁⟩ hrel
        exact (hlive p hp r₁ h₁).2 (released_concat.mpr (.inl hrel))
      · intro r₁ h₁
        rcases hh r₁ h₁ with ⟨q, hq, h⟩ | h
        · exact .inl ⟨q, List.mem_cons_of_mem _ hq, h⟩
        · exact .inr h
    once := releasedOnce_concat.mpr ⟨L.once, by simp [hx]⟩ }

/-- A new object that owns nothing, or a simple resource that had no owner. -/
theorem adopt (L : Ledger O objs tr none)
    (ho : ∀ r, O.raw o = some r →
      Simple ε r ∧ Acquired tr r ∧ ¬ Released tr r ∧ ¬ Held O objs r) :
    Ledger O ((a, o) :: objs) tr none where
  released := L.released
  given := L.given
  unique := by
    intro p hp q hq r h₁ h₂
    rcases List.mem_cons.mp hp with rfl | hp' <;> rcases List.mem_cons.mp hq with rfl | hq'
    · rfl
    · exact absurd ⟨q, hq', h₂⟩ (ho r h₁).2.2.2
    · exact absurd ⟨p, hp', h₁⟩ (ho r h₂).2.2.2
    · exact L.unique p hp' q hq' r h₁ h₂
  live := by
    intro p hp r h
    rcases List.mem_cons.mp hp with rfl | hp
    · exact ⟨(ho r h).2.1, (ho r h).2.2.1⟩
    · exact L.live p hp r h
  covered := fun r h hs => (L.covered r h hs).imp_right fun ⟨q, hq, h⟩ =>
    ⟨q, List.mem_cons_of_mem _ hq, h⟩
  linked := by
    intro p hp r r' h hd
    rcases List.mem_cons.mp hp with rfl | hp
    · exact absurd hd.reliesOn (not_reliesOn_of_simple (ho r h).1)
    · obtain ⟨q, hq, hm, h'⟩ := L.linked p hp r r' h hd
      exact ⟨q, List.mem_cons_of_mem _ hq, hm, h'⟩
  ordered := L.ordered
  noUse := L.noUse
  once := L.once

/-- An object's members change, all but those that own what its resource stands on. Until that
resource is given another one to work on, it is busy. -/
theorem relink {objs' : List (α × ω)} (L : Ledger O objs tr none) (hr : Replaced objs objs' a o o')
    (hraw : O.raw o' = O.raw o)
    (hkeep : ∀ r r', O.raw o = some r → StandsOn tr r r' → ∀ q ∈ objs, O.raw q.2 = some r' →
      q.1 ∈ O.members o → q.1 ∈ O.members o') : Ledger O objs' tr (O.raw o) := by
  have hsame : ∀ p ∈ objs', ∃ q ∈ objs, q.1 = p.1 ∧ O.raw q.2 = O.raw p.2 := by
    intro p hp
    rcases hr.back p hp with rfl | ⟨hp, -⟩
    · exact ⟨_, hr.old, rfl, hraw.symm⟩
    · exact ⟨p, hp, rfl, rfl⟩
  have hother : ∀ q ∈ objs, ∃ p ∈ objs', p.1 = q.1 ∧ O.raw p.2 = O.raw q.2 := by
    intro q hq
    rcases hr.forth q hq with rfl | ⟨hq, -⟩
    · exact ⟨_, hr.new, rfl, hraw⟩
    · exact ⟨q, hq, rfl, rfl⟩
  exact {
    released := L.released
    given := L.given
    unique := by
      intro p hp q hq r h₁ h₂
      obtain ⟨p', hp', hpa, hpr⟩ := hsame p hp
      obtain ⟨q', hq', hqa, hqr⟩ := hsame q hq
      rw [← hpa, ← hqa]
      exact L.unique p' hp' q' hq' r (hpr.trans h₁) (hqr.trans h₂)
    live := by
      intro p hp r h
      obtain ⟨q, hq, -, hqr⟩ := hsame p hp
      exact L.live q hq r (hqr.trans h)
    covered := by
      intro r h hs
      refine (L.covered r h hs).imp_right fun ⟨q, hq, h⟩ => ?_
      obtain ⟨p, hp, -, hpr⟩ := hother q hq
      exact ⟨p, hp, hpr.trans h⟩
    linked := by
      intro p hp r r' h hd
      rcases hr.back p hp with rfl | ⟨hp, hne⟩
      · have hro : O.raw o = some r := hraw.symm.trans h
        have hst : StandsOn tr r r' := hd.resolve_right fun hg => hg.2 hro
        obtain ⟨q, hq, hm, hqr⟩ := L.linked _ hr.old r r' hro (.inl hst)
        obtain ⟨q', hq', hqa, hqr'⟩ := hother q hq
        exact ⟨q', hq', hqa ▸ hkeep r r' hro hst q hq hqr hm, hqr'.trans hqr⟩
      · obtain ⟨q, hq, hm, hqr⟩ := L.linked p hp r r' h (due_none.mpr hd.reliesOn)
        obtain ⟨q', hq', hqa, hqr'⟩ := hother q hq
        exact ⟨q', hq', hqa ▸ hm, hqr'.trans hqr⟩
    ordered := fun before x after r r' he hx hd =>
      L.ordered before x after r r' he hx (due_none.mpr hd.reliesOn)
    noUse := L.noUse
    once := L.once }

/-- The busy resource is given one that a member of its owner owns. -/
theorem give (L : Ledger O objs tr (some r)) (hx : effect x = .give r r')
    (ha : (a, o) ∈ objs) (hu : ∀ p ∈ objs, p.1 = a → p = (a, o)) (ho : O.raw o = some r)
    (hr' : ∃ q ∈ objs, q.1 ∈ O.members o ∧ O.raw q.2 = some r')
    (hh : ∀ r, some r ∈ handles x → Usable O objs tr r) : Ledger O objs (tr ++ [x]) none := by
  have hdue : ∀ r₁ r₂, Due (tr ++ [x]) none r₁ r₂ →
      Due tr (some r) r₁ r₂ ∨ r = r₁ ∧ r' = r₂ := by
    intro r₁ r₂ h
    simp only [Due, standsOn_concat, lastGiven_concat, hx, reduceCtorEq, or_false, ne_eq,
      not_false_eq_true, and_true, Effect.give.injEq, not_and, Option.some.injEq] at h ⊢
    rcases h with h | ⟨h, h'⟩ | ⟨h, h'⟩
    · exact .inl (.inl h)
    · exact .inr ⟨h, h'⟩
    · exact .inl (.inr ⟨h, fun he => h' r' he rfl⟩)
  have hlinked : ∀ p ∈ objs, ∀ r₁ r₂, O.raw p.2 = some r₁ → Due (tr ++ [x]) none r₁ r₂ →
      ∃ q ∈ objs, q.1 ∈ O.members p.2 ∧ O.raw q.2 = some r₂ := by
    intro p hp r₁ r₂ h₁ h
    rcases hdue r₁ r₂ h with h | ⟨rfl, rfl⟩
    · exact L.linked p hp r₁ r₂ h₁ h
    · obtain rfl := hu p hp (L.unique p hp _ ha r h₁ ho)
      exact hr'
  exact {
    released := by simpa [hx] using L.released
    given := by
      intro r₁ r₂ h
      refine acquired_concat.mpr (.inl ?_)
      rcases lastGiven_concat.mp h with h | ⟨h, -⟩
      · obtain ⟨rfl, -⟩ : r = r₁ ∧ r' = r₂ := by simpa [hx] using h
        exact (L.live _ ha r ho).1
      · exact L.given r₁ r₂ h
    unique := L.unique
    live := by simpa [hx] using L.live
    covered := by simpa [hx] using L.covered
    linked := hlinked
    ordered := by
      refine ordered_of_not_release L.ordered (by simp [hx]) fun r₁ r₂ h hrel => ?_
      rcases hdue r₁ r₂ h with h | ⟨-, rfl⟩
      · exact h
      · obtain ⟨q, hq, -, h⟩ := hr'
        exact absurd hrel (L.live q hq r' h).2
    noUse := by
      refine noUse_of_usable objs L.noUse ?_ L.not_released hh
      rintro r₁ r₂ ⟨p, hp, h₁⟩ h
      obtain ⟨q, hq, -, h₂⟩ := hlinked p hp r₁ r₂ h₁ (due_none.mpr h)
      exact ⟨q, hq, h₂⟩
    once := releasedOnce_concat.mpr ⟨L.once, by simp [hx]⟩ }

/-- An object that owns nothing goes. -/
theorem remove {objs' : List (α × ω)} (L : Ledger O objs tr busy) (hr : Removed O objs objs' a o)
    (ho : O.raw o = none) : Ledger O objs' tr busy where
  released := L.released
  given := L.given
  unique p hp q hq := L.unique p (hr.back p hp).1 q (hr.back q hq).1
  live p hp := L.live p (hr.back p hp).1
  covered := by
    intro r h hs
    refine (L.covered r h hs).imp_right fun ⟨q, hq, h⟩ => ?_
    rcases hr.forth q hq with rfl | hq
    · simp [ho] at h
    · exact ⟨q, hq, h⟩
  linked := by
    intro p hp r r' h hd
    obtain ⟨q, hq, hm, h'⟩ := L.linked p (hr.back p hp).1 r r' h hd
    exact ⟨q, hr.member (hr.back p hp).1 hq hm, hm, h'⟩
  ordered := L.ordered
  noUse := L.noUse
  once := L.once

/-- An object gives its resource back and goes. -/
theorem release {objs' : List (α × ω)} (L : Ledger O objs tr busy) (hr : Removed O objs objs' a o)
    (ho : O.raw o = some r) (hx : effect x = .release r) (hbusy : busy = none ∨ Simple ε r) :
    Ledger O objs' (tr ++ [x]) busy := by
  have hnot : ¬ Released tr r := (L.live _ hr.old r ho).2
  have hdue : ∀ r₁ r₂, Due (tr ++ [x]) busy r₁ r₂ → Due tr busy r₁ r₂ := by
    intro r₁ r₂ h
    simpa [Due, lastGiven_concat, hx] using h
  have hdep : ∀ r₁ r₂, ReliesOn (tr ++ [x]) r₁ r₂ → ReliesOn tr r₁ r₂ := by
    intro r₁ r₂ h
    simpa [ReliesOn, lastGiven_concat, hx] using h
  have hlinked : ∀ p ∈ objs', ∀ r₁ r₂, O.raw p.2 = some r₁ → Due (tr ++ [x]) busy r₁ r₂ →
      ∃ q ∈ objs', q.1 ∈ O.members p.2 ∧ O.raw q.2 = some r₂ := by
    intro p hp r₁ r₂ h₁ h
    obtain ⟨q, hq, hm, h₂⟩ := L.linked p (hr.back p hp).1 r₁ r₂ h₁ (hdue r₁ r₂ h)
    exact ⟨q, hr.member (hr.back p hp).1 hq hm, hm, h₂⟩
  exact {
    released := by
      intro r₁ h
      rcases released_concat.mp h with h | h
      · exact acquired_concat.mpr (.inl (L.released r₁ h))
      · obtain rfl : r = r₁ := by simpa [hx] using h
        exact acquired_concat.mpr (.inl (L.live _ hr.old r ho).1)
    given := by simpa [hx, lastGiven_concat] using L.given
    unique := fun p hp q hq => L.unique p (hr.back p hp).1 q (hr.back q hq).1
    live := by
      intro p hp r₁ h₁
      obtain ⟨hp, hne⟩ := hr.back p hp
      have hrr : r ≠ r₁ := fun h => hne (L.unique p hp _ hr.old r₁ h₁ (h ▸ ho))
      simpa [hx, hrr] using L.live p hp r₁ h₁
    covered := by
      intro r₁ h hs
      rcases L.covered r₁ (by simpa [hx] using h) hs with h | ⟨q, hq, h⟩
      · exact .inl (released_concat.mpr (.inl h))
      · rcases hr.forth q hq with rfl | hq
        · obtain rfl : r = r₁ := Option.some.inj (ho.symm.trans h)
          exact .inl (released_concat.mpr (.inr hx))
        · exact .inr ⟨q, hq, h⟩
    linked := hlinked
    ordered := by
      intro before y after r₁ r₂ he hy hd
      rcases concat_eq_append_cons.mp he with ⟨-, rfl, rfl⟩ | ⟨rest, -, rfl⟩
      · -- the owner of what depends on `r` would hold the object that goes
        obtain rfl : r = r₂ := by simpa [hx] using hy
        have hd' := hdue r₁ r hd
        have hs : ¬ Simple ε r₁ := fun hs => not_reliesOn_of_simple hs hd'.reliesOn
        refine (L.covered r₁ (L.acquired_of_due hd') hs).resolve_right ?_
        rintro ⟨p, hp, h₁⟩
        obtain ⟨q, hq, hm, h₂⟩ := L.linked p hp r₁ r h₁ hd'
        rw [L.unique q hq _ hr.old r h₂ ho] at hm
        exact hr.sole p hp hm
      · exact L.ordered before y rest r₁ r₂ rfl hy (hdue r₁ r₂ hd)
    noUse := by
      refine noUse_concat.mpr ⟨L.noUse, fun r₁ r₂ h₁ h => ?_⟩
      obtain rfl : r = r₁ := by simpa [handles_release hx, eq_comm] using h₁
      rcases hbusy with rfl | hs
      · have hheld : Held O objs r₂ := by
          refine held_of_reliesOn ?_ ⟨_, hr.old, ho⟩ (ReflTransGen.mono hdep _ _ h)
          rintro r₁ r₂ ⟨p, hp, h₁⟩ h
          obtain ⟨q, hq, -, h₂⟩ := L.linked p hp r₁ r₂ h₁ (due_none.mpr h)
          exact ⟨q, hq, h₂⟩
        obtain ⟨q, hq, h₂⟩ := hheld
        exact (L.live q hq r₂ h₂).2
      · rw [eq_of_simple hs h]
        exact hnot
    once := releasedOnce_concat.mpr ⟨L.once, fun r₁ h => by
      obtain rfl : r = r₁ := by simpa [hx] using h
      exact hnot⟩ }

end Ledger

end OwnershipLedger
