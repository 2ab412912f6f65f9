import Mathlib.Tactic.Common

/-!
# Programs with exceptions and scopes

A program changes a state and ends with a value or an exception; the state survives
both. A cleanup runs when a scope is left, whichever way it is left, or only when it
is left by an exception. The triples have one postcondition for either end.
-/
namespace ScopedPrograms

variable {σ χ α β : Type}

def Scoped (σ χ α : Type) : Type := σ → Except χ α × σ

instance : Monad (Scoped σ χ) where
  pure a := fun s => (.ok a, s)
  bind p f := fun s => match p s with
    | (.ok a, t) => f a t
    | (.error e, t) => (.error e, t)

def raise (e : χ) : Scoped σ χ α := fun s => (.error e, s)

def raiseIf (c : Prop) [Decidable c] (e : χ) : Scoped σ χ Unit := if c then raise e else pure ()

def view (f : σ → α) : Scoped σ χ α := fun s => (.ok (f s), s)

def update (f : σ → σ) : Scoped σ χ Unit := fun s => (.ok (), f s)

/-- The cleanup runs when the scope is left, by a value or by an exception. -/
def ensuring (cleanup : σ → σ) (p : Scoped σ χ α) : Scoped σ χ α := fun s =>
  ((p s).1, cleanup (p s).2)

/-- The cleanup runs only when the scope is left by an exception. -/
def unwinding (cleanup : σ → σ) (p : Scoped σ χ α) : Scoped σ χ α := fun s =>
  match p s with
  | (.ok a, t) => (.ok a, t)
  | (.error e, t) => (.error e, cleanup t)

@[simp] theorem pure_apply (a : α) (s : σ) : (pure a : Scoped σ χ α) s = (.ok a, s) := rfl

@[simp] theorem raise_apply (e : χ) (s : σ) : (raise e : Scoped σ χ α) s = (.error e, s) := rfl

@[simp] theorem view_apply (f : σ → α) (s : σ) :
    (view f : Scoped σ χ α) s = (.ok (f s), s) := rfl

@[simp] theorem update_apply (f : σ → σ) (s : σ) :
    (update f : Scoped σ χ Unit) s = (.ok (), f s) := rfl

theorem bind_ok {p : Scoped σ χ α} {s t : σ} {a : α} (h : p s = (.ok a, t))
    (f : α → Scoped σ χ β) : (p >>= f) s = f a t := by
  change (match p s with | (.ok a, t) => f a t | (.error e, t) => (.error e, t)) = _
  rw [h]

theorem bind_error {p : Scoped σ χ α} {s t : σ} {e : χ} (h : p s = (.error e, t))
    (f : α → Scoped σ χ β) : (p >>= f) s = (.error e, t) := by
  change (match p s with | (.ok a, t) => f a t | (.error e, t) => (.error e, t)) = _
  rw [h]

theorem raiseIf_bind (c : Prop) [Decidable c] (e : χ) (f : Unit → Scoped σ χ α) :
    (raiseIf c e >>= f) = if c then raise e else f () := by
  unfold raiseIf
  split <;> rfl

@[simp] theorem ensuring_apply (cleanup : σ → σ) (p : Scoped σ χ α) (s : σ) :
    ensuring cleanup p s = ((p s).1, cleanup (p s).2) := rfl

/-- From a state in `P` the program ends with a value in `Q` or with an exception in `E`. -/
def Triple (P : σ → Prop) (p : Scoped σ χ α) (Q : α → σ → Prop) (E : χ → σ → Prop) : Prop :=
  ∀ s, P s → match p s with
    | (.ok a, t) => Q a t
    | (.error e, t) => E e t

namespace Triple

variable {P P' : σ → Prop} {Q : α → σ → Prop} {R : β → σ → Prop} {E : χ → σ → Prop}

theorem pure {a : α} (h : ∀ s, P s → Q a s) : Triple P (pure a) Q E := fun s hs => h s hs

theorem raise {e : χ} (h : ∀ s, P s → E e s) : Triple P (raise e : Scoped σ χ α) Q E :=
  fun s hs => h s hs

theorem bind {p : Scoped σ χ α} {f : α → Scoped σ χ β} (hp : Triple P p Q E)
    (hf : ∀ a, Triple (Q a) (f a) R E) : Triple P (p >>= f) R E := by
  intro s hs
  have h := hp s hs
  rcases hr : p s with ⟨r, t⟩
  cases r with
  | ok a =>
    rw [hr] at h
    rw [bind_ok hr]
    exact hf a t h
  | error e =>
    rw [hr] at h
    rw [bind_error hr]
    exact h

/-- A part of the precondition that is not about the state. -/
theorem assuming {φ : Prop} {p : Scoped σ χ α} (h : φ → Triple P p Q E) :
    Triple (fun s => P s ∧ φ) p Q E := fun s hs => h hs.2 s hs.1

/-- A program that looks at the state first. -/
theorem bindView {f : σ → α} {g : α → Scoped σ χ β}
    (h : ∀ s, P s → Triple (Eq s) (g (f s)) R E) :
    Triple P (ScopedPrograms.view f >>= g) R E := by
  intro s hs
  rw [bind_ok (view_apply f s)]
  exact h s hs s rfl

theorem known {p : Scoped σ χ α} {s t : σ} {a : α} (hp : p s = (.ok a, t)) (h : Q a t) :
    Triple (Eq s) p Q E := by
  rintro _ rfl
  rw [hp]
  exact h

/-- A program whose first part is known. -/
theorem bindEq {p : Scoped σ χ α} {f : α → Scoped σ χ β} {s t : σ} {a : α} (hp : p s = (.ok a, t))
    (h : Triple (Eq t) (f a) R E) : Triple (Eq s) (p >>= f) R E := by
  rintro _ rfl
  rw [bind_ok hp]
  exact h t rfl

theorem ite {c : Prop} [Decidable c] {p q : Scoped σ χ α} (hp : c → Triple P p Q E)
    (hq : ¬ c → Triple P q Q E) : Triple P (if c then p else q) Q E := by
  split
  · exact hp ‹_›
  · exact hq ‹_›

theorem weaken {p : Scoped σ χ α} (h : Triple P p Q E) (hP : ∀ s, P' s → P s) :
    Triple P' p Q E := fun s hs => h s (hP s hs)

theorem post {p : Scoped σ χ α} {Q' : α → σ → Prop} {E' : χ → σ → Prop} (h : Triple P p Q' E')
    (hQ : ∀ a s, Q' a s → Q a s) (hE : ∀ e s, E' e s → E e s) : Triple P p Q E := by
  intro s hs
  have hp := h s hs
  rcases hr : p s with ⟨r, t⟩
  rw [hr] at hp
  cases r with
  | ok a => exact hQ a t hp
  | error e => exact hE e t hp

theorem of_eq {p : Scoped σ χ α} {s : σ} (h : Triple P p Q E) (hs : P s) : Triple (Eq s) p Q E :=
  h.weaken fun _ ht => ht ▸ hs

theorem raiseIf {c : Prop} [Decidable c] {e : χ} {Q : Unit → σ → Prop} (hQ : ∀ s, P s → Q () s)
    (hE : ∀ s, P s → E e s) : Triple P (raiseIf c e) Q E :=
  ite (fun _ => raise hE) fun _ => pure hQ

/-- A scope whose cleanup leads from the body's postconditions to those of the whole. -/
theorem ensuring {cleanup : σ → σ} {p : Scoped σ χ α} {Q' : α → σ → Prop} {E' : χ → σ → Prop}
    (h : Triple P p Q' E') (hQ : ∀ a s, Q' a s → Q a (cleanup s))
    (hE : ∀ e s, E' e s → E e (cleanup s)) : Triple P (ensuring cleanup p) Q E := by
  intro s hs
  have hp := h s hs
  rw [ensuring_apply]
  rcases hr : p s with ⟨r, t⟩
  rw [hr] at hp
  cases r with
  | ok a => exact hQ a t hp
  | error e => exact hE e t hp

theorem unwinding {cleanup : σ → σ} {p : Scoped σ χ α} (E' : χ → σ → Prop)
    (h : Triple P p Q E') (hE : ∀ e s, E' e s → E e (cleanup s)) :
    Triple P (unwinding cleanup p) Q E := by
  intro s hs
  have hp := h s hs
  rcases hr : p s with ⟨r, t⟩
  rw [hr] at hp
  simp only [ScopedPrograms.unwinding, hr]
  cases r with
  | ok a => exact hp
  | error e => exact hE e t hp

end Triple

end ScopedPrograms
