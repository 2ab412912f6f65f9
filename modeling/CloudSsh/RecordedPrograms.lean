import CloudSsh.ScopedPrograms

/-!
# Programs that record what they do

A state has a core, on which programs depend, and a record, to which they add. A run
is then described by the cores before and after, the result and what was added. A
program is `Framed` when the record plays no part in what it does.
-/
namespace RecordedPrograms
open ScopedPrograms

variable {σ μ ε χ α β : Type}

structure Recorder (σ μ ε : Type) where
  core : σ → μ
  record : σ → List ε

/-- A change of the state takes the core `m` to `m'` and adds `xs` to the record. -/
def Changes (R : Recorder σ μ ε) (f : σ → σ) (m : μ) (xs : List ε) (m' : μ) : Prop :=
  ∀ s, R.core s = m → R.core (f s) = m' ∧ R.record (f s) = R.record s ++ xs

/-- From the core `m` the program ends with `r` and the core `m'`, having added `xs` to the
record. -/
def Runs (R : Recorder σ μ ε) (p : Scoped σ χ α) (m : μ) (r : Except χ α) (xs : List ε) (m' : μ) :
    Prop :=
  ∀ s, R.core s = m → (p s).1 = r ∧ R.core (p s).2 = m' ∧ R.record (p s).2 = R.record s ++ xs

variable {R : Recorder σ μ ε} {m m₁ m₂ : μ} {xs ys : List ε} {r : Except χ β}

namespace Runs

theorem congr {p : Scoped σ χ β} (h : Runs R p m r xs m₁) (hx : xs = ys) (hm : m₁ = m₂) :
    Runs R p m r ys m₂ := hx ▸ hm ▸ h

theorem pure (a : α) : Runs R (Pure.pure a : Scoped σ χ α) m (.ok a) [] m :=
  fun _ hs => ⟨rfl, hs, (List.append_nil _).symm⟩

theorem raise (e : χ) : Runs R (ScopedPrograms.raise e : Scoped σ χ α) m (.error e) [] m :=
  fun _ hs => ⟨rfl, hs, (List.append_nil _).symm⟩

theorem raiseIf_true {c : Prop} [Decidable c] (e : χ) (hc : c) :
    Runs R (raiseIf c e : Scoped σ χ Unit) m (.error e) [] m := by
  rw [raiseIf, if_pos hc]
  exact raise e

theorem raiseIf_false {c : Prop} [Decidable c] (e : χ) (hc : ¬ c) :
    Runs R (raiseIf c e : Scoped σ χ Unit) m (.ok ()) [] m := by
  rw [raiseIf, if_neg hc]
  exact pure ()

theorem ite_true {c : Prop} [Decidable c] {p : Scoped σ χ β} (hc : c) (hp : Runs R p m r xs m₁)
    (q : Scoped σ χ β) : Runs R (if c then p else q) m r xs m₁ := by
  rw [if_pos hc]
  exact hp

theorem ite_false {c : Prop} [Decidable c] {q : Scoped σ χ β} (hc : ¬ c) (p : Scoped σ χ β)
    (hq : Runs R q m r xs m₁) : Runs R (if c then p else q) m r xs m₁ := by
  rw [if_neg hc]
  exact hq

theorem view {f : σ → α} {a : α} (hf : ∀ s, R.core s = m → f s = a) :
    Runs R (ScopedPrograms.view f : Scoped σ χ α) m (.ok a) [] m :=
  fun s hs => ⟨congrArg Except.ok (hf s hs), hs, (List.append_nil _).symm⟩

theorem update {f : σ → σ} (hf : Changes R f m xs m₁) :
    Runs R (ScopedPrograms.update f : Scoped σ χ Unit) m (.ok ()) xs m₁ :=
  fun s hs => ⟨rfl, hf s hs⟩

theorem bind {p : Scoped σ χ α} {f : α → Scoped σ χ β} {a : α} (hp : Runs R p m (.ok a) xs m₁)
    (hf : Runs R (f a) m₁ r ys m₂) : Runs R (p >>= f) m r (xs ++ ys) m₂ := by
  intro s hs
  obtain ⟨hr, hcore, hrec⟩ := hp s hs
  obtain ⟨hr', hcore', hrec'⟩ := hf _ hcore
  rw [bind_ok (show p s = (.ok a, (p s).2) from Prod.ext hr rfl)]
  exact ⟨hr', hcore', by rw [hrec', hrec, List.append_assoc]⟩

theorem bind_error {p : Scoped σ χ α} {e : χ} (hp : Runs R p m (.error e) xs m₁)
    (f : α → Scoped σ χ β) : Runs R (p >>= f) m (.error e) xs m₁ := by
  intro s hs
  obtain ⟨hr, hcore, hrec⟩ := hp s hs
  rw [ScopedPrograms.bind_error (show p s = (.error e, (p s).2) from Prod.ext hr rfl)]
  exact ⟨rfl, hcore, hrec⟩

theorem ensuring {p : Scoped σ χ β} {f : σ → σ} (hp : Runs R p m r xs m₁)
    (hf : Changes R f m₁ ys m₂) : Runs R (ensuring f p) m r (xs ++ ys) m₂ := by
  intro s hs
  obtain ⟨hr, hcore, hrec⟩ := hp s hs
  obtain ⟨hcore', hrec'⟩ := hf _ hcore
  exact ⟨hr, hcore', by rw [ensuring_apply, hrec', hrec, List.append_assoc]⟩

theorem unwinding_ok {p : Scoped σ χ α} {f : σ → σ} {a : α} (hp : Runs R p m (.ok a) xs m₁) :
    Runs R (unwinding f p) m (.ok a) xs m₁ := by
  intro s hs
  obtain ⟨hr, hcore, hrec⟩ := hp s hs
  have hu : unwinding f p s = p s := by
    rw [unwinding, show p s = (.ok a, (p s).2) from Prod.ext hr rfl]
  rw [hu]
  exact ⟨hr, hcore, hrec⟩

theorem unwinding_error {p : Scoped σ χ α} {f : σ → σ} {e : χ} (hp : Runs R p m (.error e) xs m₁)
    (hf : Changes R f m₁ ys m₂) : Runs R (unwinding f p) m (.error e) (xs ++ ys) m₂ := by
  intro s hs
  obtain ⟨hr, hcore, hrec⟩ := hp s hs
  obtain ⟨hcore', hrec'⟩ := hf _ hcore
  have hu : unwinding f p s = (.error e, f (p s).2) := by
    rw [unwinding, show p s = (.error e, (p s).2) from Prod.ext hr rfl]
  rw [hu]
  exact ⟨rfl, hcore', by rw [hrec', hrec, List.append_assoc]⟩

end Runs

/-! ## Programs that do not look at the record -/

def FramedChange (R : Recorder σ μ ε) (f : σ → σ) : Prop := ∀ m, ∃ xs m', Changes R f m xs m'

def Framed (R : Recorder σ μ ε) (p : Scoped σ χ α) : Prop := ∀ m, ∃ r xs m', Runs R p m r xs m'

namespace Framed

theorem pure (a : α) : Framed R (Pure.pure a : Scoped σ χ α) := fun _ => ⟨_, _, _, Runs.pure a⟩

theorem raise (e : χ) : Framed R (ScopedPrograms.raise e : Scoped σ χ α) :=
  fun _ => ⟨_, _, _, Runs.raise e⟩

theorem ite {c : Prop} [Decidable c] {p q : Scoped σ χ α} (hp : Framed R p) (hq : Framed R q) :
    Framed R (if c then p else q) := by
  split
  · exact hp
  · exact hq

theorem raiseIf {c : Prop} [Decidable c] (e : χ) :
    Framed R (ScopedPrograms.raiseIf c e : Scoped σ χ Unit) := ite (raise e) (pure ())

theorem update {f : σ → σ} (hf : FramedChange R f) :
    Framed R (ScopedPrograms.update f : Scoped σ χ Unit) := fun m => by
  obtain ⟨xs, m', h⟩ := hf m
  exact ⟨_, _, _, Runs.update h⟩

theorem bind {p : Scoped σ χ α} {f : α → Scoped σ χ β} (hp : Framed R p)
    (hf : ∀ a, Framed R (f a)) : Framed R (p >>= f) := fun m => by
  obtain ⟨r, xs, m₁, h⟩ := hp m
  cases r with
  | ok a =>
    obtain ⟨r, ys, m₂, h'⟩ := hf a m₁
    exact ⟨_, _, _, h.bind h'⟩
  | error e => exact ⟨_, _, _, h.bind_error f⟩

theorem ensuring {p : Scoped σ χ α} {f : σ → σ} (hp : Framed R p) (hf : FramedChange R f) :
    Framed R (ensuring f p) := fun m => by
  obtain ⟨r, xs, m₁, h⟩ := hp m
  obtain ⟨ys, m₂, h'⟩ := hf m₁
  exact ⟨_, _, _, h.ensuring h'⟩

theorem unwinding {p : Scoped σ χ α} {f : σ → σ} (hp : Framed R p) (hf : FramedChange R f) :
    Framed R (unwinding f p) := fun m => by
  obtain ⟨r, xs, m₁, h⟩ := hp m
  cases r with
  | ok a => exact ⟨_, _, _, h.unwinding_ok⟩
  | error e =>
    obtain ⟨ys, m₂, h'⟩ := hf m₁
    exact ⟨_, _, _, h.unwinding_error h'⟩

/-- From states with the same core a program does the same. -/
theorem agree {p : Scoped σ χ α} (hp : Framed R p) {s t : σ} (h : R.core s = R.core t) :
    ∃ xs, (p s).1 = (p t).1 ∧ R.core (p s).2 = R.core (p t).2 ∧
      R.record (p s).2 = R.record s ++ xs ∧ R.record (p t).2 = R.record t ++ xs := by
  obtain ⟨r, xs, m', hr⟩ := hp (R.core s)
  obtain ⟨hs, hcs, hrs⟩ := hr s rfl
  obtain ⟨ht, hct, hrt⟩ := hr t h.symm
  exact ⟨xs, hs.trans ht.symm, hcs.trans hct.symm, hrs, hrt⟩

end Framed

end RecordedPrograms
