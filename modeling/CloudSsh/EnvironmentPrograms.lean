import Mathlib.Tactic.Common
import Mathlib.Data.Nat.Notation

/-!
# Programs that question an environment and log what they do

A program takes the environment it runs in from one state to the next and leaves
a log. Nothing is fixed about the environment: whatever a call may answer is one
choice of its state and its answering function. The while loop carries a budget
of turns, so that a run of any length is one value of it.
-/
namespace EnvironmentPrograms

structure Outcome (σ ε α : Type) where
  value : α
  env : σ
  log : List ε

def Program (σ ε α : Type) : Type := σ → Outcome σ ε α

variable {σ ε α β : Type}

instance : Monad (Program σ ε) where
  pure a := fun s => ⟨a, s, []⟩
  bind p f := fun s =>
    let o := p s
    let o' := f o.value o.env
    ⟨o'.value, o'.env, o.log ++ o'.log⟩

/-- A call: the environment answers, and the log records the state it was made in. -/
def call (answer : σ → α × σ) (event : α → ε) : Program σ (σ × ε) α := fun s =>
  ⟨(answer s).1, (answer s).2, [(s, event (answer s).1)]⟩

/-- An action whose effect on the environment is not looked at. -/
def emit (event : ε) : Program σ (σ × ε) Unit := call (fun s => ((), s)) (fun _ => event)

/-- A look at the environment that is no call and leaves no trace. -/
def look (f : σ → α) : Program σ ε α := fun s => ⟨f s, s, []⟩

@[simp] theorem pure_apply (a : α) (s : σ) :
    (pure a : Program σ ε α) s = ⟨a, s, []⟩ := rfl

@[simp] theorem bind_apply (p : Program σ ε α) (f : α → Program σ ε β) (s : σ) :
    (p >>= f) s = ⟨(f (p s).value (p s).env).value, (f (p s).value (p s).env).env,
      (p s).log ++ (f (p s).value (p s).env).log⟩ := rfl

@[simp] theorem call_apply (answer : σ → α × σ) (event : α → ε) (s : σ) :
    call answer event s = ⟨(answer s).1, (answer s).2, [(s, event (answer s).1)]⟩ := rfl

@[simp] theorem emit_apply (event : ε) (s : σ) :
    emit event s = ⟨(), s, [(s, event)]⟩ := rfl

@[simp] theorem look_apply (f : σ → α) (s : σ) :
    (look f : Program σ ε α) s = ⟨f s, s, []⟩ := rfl

@[simp] theorem ite_apply (c : Prop) [Decidable c] (p q : Program σ ε α) (s : σ) :
    (if c then p else q) s = if c then p s else q s := by
  split <;> rfl

/-- An assertion about the environment and the log so far that a program preserves. -/
def Keeps (I : σ → List ε → Prop) (p : Program σ ε α) : Prop :=
  ∀ s l, I s l → I (p s).env (l ++ (p s).log)

namespace Keeps
variable {I : σ → List ε → Prop}

theorem pure (a : α) : Keeps I (pure a : Program σ ε α) := by
  intro s l h
  simpa using h

theorem bind {p : Program σ ε α} {f : α → Program σ ε β} (hp : Keeps I p)
    (hf : ∀ a, Keeps I (f a)) : Keeps I (p >>= f) := by
  intro s l h
  simpa [List.append_assoc] using hf _ _ _ (hp s l h)

theorem ite {c : Prop} [Decidable c] {p q : Program σ ε α} (hp : Keeps I p) (hq : Keeps I q) :
    Keeps I (if c then p else q) := by
  split
  · exact hp
  · exact hq

end Keeps

/-- At most `n` turns of `while (test) body`; the value says whether the loop has ended. -/
def whileLoop (test : Program σ ε Bool) (body : Program σ ε Unit) : ℕ → Program σ ε Bool
  | 0 => pure false
  | n + 1 => do
    if ← test then
      body
      whileLoop test body n
    else
      pure true

section Loops

variable {test : Program σ ε Bool} {body : Program σ ε Unit}

/-- The state at the next iteration boundary. -/
def turn (test : Program σ ε Bool) (body : Program σ ε Unit) (s : σ) : σ :=
  (body (test s).env).env

@[simp] theorem whileLoop_zero (s : σ) : whileLoop test body 0 s = ⟨false, s, []⟩ := rfl

theorem whileLoop_stop {s : σ} (h : (test s).value = false) (n : ℕ) :
    whileLoop test body (n + 1) s = ⟨true, (test s).env, (test s).log⟩ := by
  simp [whileLoop, h]

theorem whileLoop_more {s : σ} (h : (test s).value = true) (n : ℕ) :
    whileLoop test body (n + 1) s =
      ⟨(whileLoop test body n (turn test body s)).value,
        (whileLoop test body n (turn test body s)).env,
        (test s).log ++ ((body (test s).env).log ++
          (whileLoop test body n (turn test body s)).log)⟩ := by
  simp [whileLoop, h, turn]

/-- What test and body preserve holds after every run. -/
theorem Keeps.whileLoop {I : σ → List ε → Prop} (htest : Keeps I test) (hbody : Keeps I body)
    (n : ℕ) : Keeps I (whileLoop test body n) := by
  induction n with
  | zero => exact .pure false
  | succ n ih => exact htest.bind fun _ => .ite (hbody.bind fun _ => ih) (.pure true)

/-- A loop that has ended did so in a test that failed. -/
theorem whileLoop_exit {n : ℕ} {s : σ} (h : (whileLoop test body n s).value = true) :
    ∃ s', (test s').value = false ∧ (whileLoop test body n s).env = (test s').env := by
  induction n generalizing s with
  | zero => cases h
  | succ n ih =>
    cases hv : (test s).value with
    | false => exact ⟨s, hv, by rw [whileLoop_stop hv]⟩
    | true =>
      rw [whileLoop_more hv] at h ⊢
      exact ih h

/-- A quantity that falls in every turn bounds the number of turns. -/
theorem whileLoop_ends {I : σ → Prop} (μ : σ → ℕ)
    (hstep : ∀ s, I s → (test s).value = true →
      I (turn test body s) ∧ μ (turn test body s) < μ s)
    {s : σ} (h : I s) : ∃ n, (whileLoop test body n s).value = true := by
  induction hm : μ s using Nat.strongRecOn generalizing s with
  | ind m ih =>
    cases hv : (test s).value with
    | false => exact ⟨1, by simp [whileLoop_stop hv]⟩
    | true =>
      obtain ⟨hi, hlt⟩ := hstep s h hv
      obtain ⟨n, hn⟩ := ih _ (hm ▸ hlt) hi rfl
      exact ⟨n + 1, by simpa [whileLoop_more hv] using hn⟩

/-- A test that succeeds forever keeps the loop running forever. -/
theorem whileLoop_runs {I : σ → Prop}
    (hstep : ∀ s, I s → (test s).value = true ∧ I (turn test body s))
    (n : ℕ) {s : σ} (h : I s) : (whileLoop test body n s).value = false := by
  induction n generalizing s with
  | zero => rfl
  | succ n ih =>
    obtain ⟨hv, hi⟩ := hstep s h
    simpa [whileLoop_more hv] using ih hi

/-- The state at the `k`-th iteration boundary, as long as every test succeeds. -/
def boundary (test : Program σ ε Bool) (body : Program σ ε Unit) : σ → ℕ → σ
  | s, 0 => s
  | s, k + 1 => boundary test body (turn test body s) k

/-- The tests at the boundaries before the `n`-th all succeed. -/
def Continues (test : Program σ ε Bool) (body : Program σ ε Unit) (s : σ) (n : ℕ) : Prop :=
  ∀ k < n, (test (boundary test body s k)).value = true

@[simp] theorem boundary_zero (s : σ) : boundary test body s 0 = s := rfl

theorem boundary_succ (s : σ) (k : ℕ) :
    boundary test body s (k + 1) = boundary test body (turn test body s) k := rfl

theorem continues_succ_iff (s : σ) (n : ℕ) : Continues test body s (n + 1) ↔
    (test s).value = true ∧ Continues test body (turn test body s) n := by
  constructor
  · intro h
    exact ⟨h 0 n.succ_pos, fun k hk => h (k + 1) (Nat.succ_lt_succ hk)⟩
  · rintro ⟨h, hr⟩ k hk
    cases k with
    | zero => exact h
    | succ k => exact hr k (Nat.lt_of_succ_lt_succ hk)

/-- A loop has not ended as long as every test succeeds. -/
theorem whileLoop_running_iff (n : ℕ) (s : σ) :
    (whileLoop test body n s).value = false ↔ Continues test body s n := by
  induction n generalizing s with
  | zero => exact iff_of_true rfl fun k hk => absurd hk k.not_lt_zero
  | succ n ih =>
    rw [continues_succ_iff]
    cases hv : (test s).value with
    | false => simp [whileLoop_stop hv]
    | true => simpa [whileLoop_more hv] using ih (turn test body s)

/-- Where an entry of a run comes from: a test that was made, or the body behind one that
succeeded. -/
theorem mem_whileLoop_log {e : ε} {n : ℕ} {s : σ} :
    e ∈ (whileLoop test body n s).log ↔ ∃ k < n, Continues test body s k ∧
      (e ∈ (test (boundary test body s k)).log ∨
        (test (boundary test body s k)).value = true ∧
          e ∈ (body (test (boundary test body s k)).env).log) := by
  induction n generalizing s with
  | zero => simp
  | succ n ih =>
    have hnone : Continues test body s 0 := fun k hk => absurd hk k.not_lt_zero
    rw [Nat.exists_lt_succ_left]
    simp only [boundary_zero, hnone, true_and, boundary_succ, continues_succ_iff]
    cases hv : (test s).value with
    | false => simp [whileLoop_stop hv]
    | true => simp [whileLoop_more hv, ih, or_assoc]

end Loops

/-! ## Programs side by side -/

/-- From every state the programs answer alike and lead to the same environment, and their logs
are related. -/
def Agrees (R : List ε → List ε → Prop) (p q : Program σ ε α) : Prop :=
  ∀ s, (p s).value = (q s).value ∧ (p s).env = (q s).env ∧ R (p s).log (q s).log

/-- A relation of logs that may be checked piece by piece. -/
structure Composes (R : List ε → List ε → Prop) : Prop where
  refl : ∀ l, R l l
  append : ∀ {a b a' b'}, R a b → R a' b' → R (a ++ a') (b ++ b')

namespace Agrees

variable {R : List ε → List ε → Prop} {p q : Program σ ε α}

theorem refl (hR : Composes R) (p : Program σ ε α) : Agrees R p p := fun _ => ⟨rfl, rfl, hR.refl _⟩

theorem bind (hR : Composes R) {f g : α → Program σ ε β} (hp : Agrees R p q)
    (hf : ∀ a, Agrees R (f a) (g a)) : Agrees R (p >>= f) (q >>= g) := by
  intro s
  obtain ⟨hvalue, henv, hlog⟩ := hp s
  obtain ⟨hvalue', henv', hlog'⟩ := hf (p s).value (p s).env
  simp only [bind_apply, ← hvalue, ← henv]
  exact ⟨hvalue', henv', hR.append hlog hlog'⟩

theorem ite {c : Prop} [Decidable c] {p' q' : Program σ ε α} (h : Agrees R p q)
    (h' : Agrees R p' q') : Agrees R (if c then p else p') (if c then q else q') := by
  split
  · exact h
  · exact h'

/-- Loops that agree in test and body agree in every run. -/
theorem whileLoop (hR : Composes R) {test test' : Program σ ε Bool} {body body' : Program σ ε Unit}
    (htest : Agrees R test test') (hbody : Agrees R body body') (n : ℕ) :
    Agrees R (whileLoop test body n) (whileLoop test' body' n) := by
  induction n with
  | zero => exact refl hR _
  | succ n ih =>
    apply bind hR htest
    intro b
    exact ite (bind hR hbody fun _ => ih) (refl hR _)

end Agrees

section Accounts

variable {upper lower : ε → List β} {Good : ε → Prop}

/-- Two accounts of one log, read off its entries. The lower one never exceeds the upper one;
they agree entry by entry on good entries, and one bad entry leaves the lower one short for good. -/
structure Accounts (upper lower : ε → List β) (Good : ε → Prop) (l : List ε) : Prop where
  le : (l.flatMap lower).length ≤ (l.flatMap upper).length
  exact_of_good : (∀ e ∈ l, Good e) → l.flatMap upper = l.flatMap lower
  short_of_bad : (¬ ∀ e ∈ l, Good e) → (l.flatMap lower).length < (l.flatMap upper).length

theorem Accounts.nil : Accounts upper lower Good [] := ⟨by simp, by simp, by simp⟩

theorem Accounts.append {a b : List ε} (ha : Accounts upper lower Good a)
    (hb : Accounts upper lower Good b) : Accounts upper lower Good (a ++ b) := by
  have hab := ha.le
  have hbb := hb.le
  refine ⟨by simp only [List.flatMap_append, List.length_append]; omega, ?_, ?_⟩
  · intro h
    rw [List.forall_mem_append] at h
    rw [List.flatMap_append, List.flatMap_append, ha.exact_of_good h.1, hb.exact_of_good h.2]
  · intro h
    rw [List.forall_mem_append, not_and_or] at h
    simp only [List.flatMap_append, List.length_append]
    rcases h with h | h
    · have := ha.short_of_bad h
      omega
    · have := hb.short_of_bad h
      omega

/-- The two accounts agree as a whole exactly when every entry is good. -/
theorem Accounts.eq_iff {l : List ε} (h : Accounts upper lower Good l) :
    l.flatMap upper = l.flatMap lower ↔ ∀ e ∈ l, Good e := by
  refine ⟨fun he => ?_, h.exact_of_good⟩
  by_contra hbad
  have hlt := h.short_of_bad hbad
  rw [he] at hlt
  exact absurd hlt (Nat.lt_irrefl _)

end Accounts

end EnvironmentPrograms
