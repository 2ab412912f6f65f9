import CloudSsh.EnvironmentPrograms

/-!
# Programs that may be left or cut short

A routine ends with a value, leaves the function it is part of, or is cut when one of its loops has
used up its budget of turns. What is shown of every budget holds of every finite piece of a run,
also of a run that does not end.
-/
namespace InterruptedPrograms
open EnvironmentPrograms

inductive Ending (χ α : Type) where
  | cut
  | left (x : χ)
  | value (a : α)
  deriving DecidableEq

def Routine (σ ε χ α : Type) : Type := σ → Outcome σ ε (Ending χ α)

variable {σ ε χ ι α β : Type}

instance : Monad (Routine σ ε χ) where
  pure a := fun s => ⟨.value a, s, []⟩
  bind p f := fun s =>
    match p s with
    | ⟨.cut, t, l⟩ => ⟨.cut, t, l⟩
    | ⟨.left x, t, l⟩ => ⟨.left x, t, l⟩
    | ⟨.value a, t, l⟩ => ⟨(f a t).value, (f a t).env, l ++ (f a t).log⟩

/-- A call: the environment answers, and the log records it. -/
def ask (answer : σ → α × σ) (event : α → ε) : Routine σ ε χ α := fun s =>
  ⟨.value (answer s).1, (answer s).2, [event (answer s).1]⟩

/-- An action whose effect on the environment is not looked at. -/
def note (event : ε) : Routine σ ε χ Unit := ask (fun s => ((), s)) fun _ => event

def leave (x : χ) : Routine σ ε χ α := fun s => ⟨.left x, s, []⟩

/-- At most `n` turns of a loop. A turn says where the next one starts, or what the loop yields. -/
def turns (body : ι → Routine σ ε χ (ι ⊕ α)) : ℕ → ι → Routine σ ε χ α
  | 0, _ => fun s => ⟨.cut, s, []⟩
  | n + 1, i => do
    match ← body i with
    | .inl j => turns body n j
    | .inr a => pure a

/-- The first `n` turns of a loop. They yield where the next one starts, or what the loop yields. -/
def firstTurns (body : ι → Routine σ ε χ (ι ⊕ α)) : ℕ → ι → Routine σ ε χ (ι ⊕ α)
  | 0, i => pure (.inl i)
  | n + 1, i => do
    match ← body i with
    | .inl j => firstTurns body n j
    | .inr a => pure (.inr a)

@[simp] theorem pure_apply (a : α) (s : σ) :
    (pure a : Routine σ ε χ α) s = ⟨.value a, s, []⟩ := rfl

@[simp] theorem ask_apply (answer : σ → α × σ) (event : α → ε) (s : σ) :
    (ask answer event : Routine σ ε χ α) s =
      ⟨.value (answer s).1, (answer s).2, [event (answer s).1]⟩ := rfl

@[simp] theorem note_apply (event : ε) (s : σ) :
    (note event : Routine σ ε χ Unit) s = ⟨.value (), s, [event]⟩ := rfl

@[simp] theorem leave_apply (x : χ) (s : σ) :
    (leave x : Routine σ ε χ α) s = ⟨.left x, s, []⟩ := rfl

@[simp] theorem turns_zero (body : ι → Routine σ ε χ (ι ⊕ α)) (i : ι) (s : σ) :
    turns body 0 i s = ⟨.cut, s, []⟩ := rfl

section Bind
variable {p : Routine σ ε χ α} {f : α → Routine σ ε χ β} {s t : σ} {l : List ε}

theorem bind_of_value {a : α} (h : p s = ⟨.value a, t, l⟩) :
    (p >>= f) s = ⟨(f a t).value, (f a t).env, l ++ (f a t).log⟩ := by
  simp [bind, h]

theorem bind_of_left {x : χ} (h : p s = ⟨.left x, t, l⟩) : (p >>= f) s = ⟨.left x, t, l⟩ := by
  simp [bind, h]

theorem bind_of_cut (h : p s = ⟨.cut, t, l⟩) : (p >>= f) s = ⟨.cut, t, l⟩ := by
  simp [bind, h]

@[simp] theorem ask_bind (answer : σ → α × σ) (event : α → ε) (s : σ) :
    (ask answer event >>= f) s = ⟨(f (answer s).1 (answer s).2).value,
      (f (answer s).1 (answer s).2).env,
      event (answer s).1 :: (f (answer s).1 (answer s).2).log⟩ := rfl

end Bind

section Turns
variable {body : ι → Routine σ ε χ (ι ⊕ α)} {i : ι} {s t : σ} {l : List ε} (n : ℕ)

theorem turns_of_next {j : ι} (h : body i s = ⟨.value (.inl j), t, l⟩) :
    turns body (n + 1) i s =
      ⟨(turns body n j t).value, (turns body n j t).env, l ++ (turns body n j t).log⟩ :=
  bind_of_value h

theorem turns_of_done {a : α} (h : body i s = ⟨.value (.inr a), t, l⟩) :
    turns body (n + 1) i s = ⟨.value a, t, l⟩ :=
  (bind_of_value h).trans (by simp)

/-- The first turns are a first part of the loop. -/
theorem firstTurns_log (k : ℕ) (i : ι) (s : σ) :
    (firstTurns body k i s).log <+: (turns body (k + n) i s).log := by
  induction k generalizing i s with
  | zero => exact List.nil_prefix
  | succ k ih =>
    rw [Nat.add_right_comm]
    rcases hrun : body i s with ⟨_ | x | j | a, t, l⟩
    · simp [firstTurns, turns, bind_of_cut hrun]
    · simp [firstTurns, turns, bind_of_left hrun]
    · rw [firstTurns, turns, bind_of_value hrun, bind_of_value hrun]
      exact (List.prefix_append_right_inj l).mpr (ih j t)
    · rw [firstTurns, turns, bind_of_value hrun, bind_of_value hrun]
      exact List.prefix_refl _

end Turns

/-! ## Every entry of a log, given those before it -/

/-- Every entry is good after the entries before it. -/
def Throughout (Good : List ε → ε → Prop) (l : List ε) : Prop :=
  ∀ before e after, l = before ++ e :: after → Good before e

section Throughout

variable {Good Good' : List ε → ε → Prop} {l l' : List ε} {e : ε}

theorem throughout_nil : Throughout Good [] := by
  intro before e after h
  simp at h

theorem throughout_concat (h : Throughout Good l) (he : Good l e) : Throughout Good (l ++ [e]) := by
  intro before x after hl
  rcases List.append_eq_append_iff.mp hl with ⟨rest, rfl, hrest⟩ | ⟨rest, rfl, hrest⟩
  · cases rest with
    | nil =>
      obtain ⟨rfl, -⟩ := List.cons.inj hrest
      simpa using he
    | cons y rest => simp at hrest
  · cases rest with
    | nil =>
      obtain ⟨rfl, -⟩ := List.cons.inj hrest
      simpa using he
    | cons y rest =>
      obtain ⟨rfl, hafter⟩ := List.cons.inj hrest
      exact h before x rest rfl

theorem Throughout.init (h : Throughout Good (l ++ l')) : Throughout Good l := by
  intro before e after hl
  apply h before e (after ++ l')
  rw [hl, List.append_assoc, List.cons_append]

theorem Throughout.of_prefix (h : Throughout Good l) (hl : l' <+: l) : Throughout Good l' := by
  obtain ⟨rest, rfl⟩ := hl
  exact h.init

theorem Throughout.mono (h : Throughout Good l)
    (hgood : ∀ before e, Good before e → Good' before e) :
    Throughout Good' l := fun before e after hl => hgood before e (h before e after hl)

theorem Throughout.last (h : Throughout Good (l ++ [e])) : Good l e := h l e [] rfl

end Throughout

/-! ## What routines keep -/

/-- Started after a log in `P`, the routine adds good entries only, and what it ends with is in `Q`
or `E`, together with the log. Nothing is asked where it is cut. -/
def Meets (Good : List ε → ε → Prop) (P : List ε → Prop) (p : Routine σ ε χ α)
    (Q : α → List ε → Prop) (E : χ → List ε → Prop) : Prop :=
  ∀ s l, Throughout Good l → P l → Throughout Good (l ++ (p s).log) ∧
    match (p s).value with
    | .cut => True
    | .left x => E x (l ++ (p s).log)
    | .value a => Q a (l ++ (p s).log)

namespace Meets

variable {Good : List ε → ε → Prop} {P P' : List ε → Prop} {Q Q' : α → List ε → Prop}
variable {R : β → List ε → Prop} {E E' : χ → List ε → Prop}
variable {p q : Routine σ ε χ α} {f : α → Routine σ ε χ β}

theorem pure {a : α} (h : ∀ l, P l → Q a l) : Meets Good P (pure a : Routine σ ε χ α) Q E := by
  intro s l hl hp
  simpa using And.intro hl (h l hp)

theorem leave {x : χ} (h : ∀ l, P l → E x l) :
    Meets Good P (leave x : Routine σ ε χ α) Q E := by
  intro s l hl hp
  simpa using And.intro hl (h l hp)

/-- What is known of the answer is used. -/
theorem asked {answer : σ → α × σ} {event : α → ε}
    (h : ∀ s l, P l → Good l (event (answer s).1) ∧ Q (answer s).1 (l ++ [event (answer s).1])) :
    Meets Good P (ask answer event : Routine σ ε χ α) Q E := by
  intro s l hl hp
  obtain ⟨hgood, hpost⟩ := h s l hp
  exact ⟨throughout_concat hl hgood, hpost⟩

theorem ask {answer : σ → α × σ} {event : α → ε} (hgood : ∀ a l, P l → Good l (event a))
    (hpost : ∀ a l, P l → Q a (l ++ [event a])) :
    Meets Good P (ask answer event : Routine σ ε χ α) Q E := by
  intro s l hl hp
  exact ⟨throughout_concat hl (hgood _ l hp), hpost _ l hp⟩

theorem note {event : ε} {Q : Unit → List ε → Prop} (hgood : ∀ l, P l → Good l event)
    (hpost : ∀ l, P l → Q () (l ++ [event])) :
    Meets Good P (note event : Routine σ ε χ Unit) Q E :=
  ask (fun _ => hgood) fun _ => hpost

theorem bind (hp : Meets Good P p Q E) (hf : ∀ a, Meets Good (Q a) (f a) R E) :
    Meets Good P (p >>= f) R E := by
  intro s l hl hpre
  have h := hp s l hl hpre
  rcases hrun : p s with ⟨_ | x | a, t, log⟩
  · rw [bind_of_cut hrun]
    rw [hrun] at h
    exact h
  · rw [bind_of_left hrun]
    rw [hrun] at h
    exact h
  · rw [bind_of_value hrun]
    rw [hrun] at h
    simpa [List.append_assoc] using hf a t (l ++ log) h.1 h.2

theorem ite {c : Prop} [Decidable c] (hp : c → Meets Good P p Q E) (hq : ¬ c → Meets Good P q Q E) :
    Meets Good P (if c then p else q) Q E := by
  split
  · exact hp ‹_›
  · exact hq ‹_›

/-- A fact that has nothing to do with the log. -/
theorem assuming {c : Prop} (h : c → Meets Good P p Q E) : Meets Good (fun l => c ∧ P l) p Q E :=
  fun s l hl hp => h hp.1 s l hl hp.2

/-- What the log before is known by. -/
theorem known {ι : Type} {P : ι → List ε → Prop} (h : ∀ i, Meets Good (P i) p Q E) :
    Meets Good (fun l => ∃ i, P i l) p Q E := by
  intro s l hl hp
  obtain ⟨i, hi⟩ := hp
  exact h i s l hl hi

/-- What the log before is known by, and what holds of it. -/
theorem given {ι : Type} {c : ι → Prop} {P : ι → List ε → Prop}
    (h : ∀ i, c i → Meets Good (P i) p Q E) : Meets Good (fun l => ∃ i, c i ∧ P i l) p Q E :=
  known fun i => assuming (h i)

theorem either (h : Meets Good P p Q E) (h' : Meets Good P' p Q E) :
    Meets Good (fun l => P l ∨ P' l) p Q E := by
  intro s l hl hp
  cases hp with
  | inl hp => exact h s l hl hp
  | inr hp => exact h' s l hl hp

theorem pre (h : Meets Good P p Q E) (hP : ∀ l, P' l → P l) : Meets Good P' p Q E :=
  fun s l hl hp => h s l hl (hP l hp)

theorem post (h : Meets Good P p Q E) (hQ : ∀ a l, Q a l → Q' a l) : Meets Good P p Q' E := by
  intro s l hl hp
  obtain ⟨hall, hend⟩ := h s l hl hp
  refine ⟨hall, ?_⟩
  cases hv : (p s).value with
  | cut => trivial
  | left x => simpa [hv] using hend
  | value a =>
    apply hQ
    simpa [hv] using hend

/-- What each turn hands to the next holds before every turn. -/
theorem turns {L : ι → List ε → Prop} {body : ι → Routine σ ε χ (ι ⊕ α)} {i : ι}
    (hstart : ∀ l, P l → L i l)
    (hbody : ∀ i, Meets Good (L i) (body i) (fun r l => r.elim (L · l) (Q · l)) E) (n : ℕ) :
    Meets Good P (turns body n i) Q E := by
  apply pre _ hstart
  clear hstart
  induction n generalizing i with
  | zero =>
    intro s l hl _
    simpa using hl
  | succ n ih =>
    apply bind (hbody i)
    intro r
    cases r with
    | inl j => exact ih
    | inr a => exact pure fun _ h => h

/-- The same of the first turns alone. -/
theorem firstTurns {L : ι → List ε → Prop} {body : ι → Routine σ ε χ (ι ⊕ α)}
    (hbody : ∀ i, Meets Good (L i) (body i) (fun r l => r.elim (L · l) (Q · l)) E) (n : ℕ) (i : ι) :
    Meets Good (L i) (firstTurns body n i) (fun r l => r.elim (L · l) (Q · l)) E := by
  induction n generalizing i with
  | zero => exact pure fun _ h => h
  | succ n ih =>
    apply bind (hbody i)
    intro r
    cases r with
    | inl j => exact ih j
    | inr a => exact pure fun _ h => h

/-! A run that starts with an empty log. -/

theorem log (h : Meets Good P p Q E) (hP : P []) (s : σ) : Throughout Good (p s).log :=
  (h s [] throughout_nil hP).1

theorem left (h : Meets Good P p Q E) (hP : P []) {s : σ} {x : χ} (hx : (p s).value = .left x) :
    E x (p s).log := by
  have hend := (h s [] throughout_nil hP).2
  rw [hx] at hend
  exact hend

theorem value (h : Meets Good P p Q E) (hP : P []) {s : σ} {a : α} (ha : (p s).value = .value a) :
    Q a (p s).log := by
  have hend := (h s [] throughout_nil hP).2
  rw [ha] at hend
  exact hend

end Meets

/-! ## Environment and log -/

/-- A relation that follows a log from one environment to the next. -/
structure Path (I : σ → List ε → σ → Prop) : Prop where
  nil : ∀ s, I s [] s
  append : ∀ {s t u l l'}, I s l t → I t l' u → I s (l ++ l') u

/-- What the routine logs leads from the environment it is started in to the one
it leaves behind. -/
def Leads (I : σ → List ε → σ → Prop) (p : Routine σ ε χ α) : Prop := ∀ s, I s (p s).log (p s).env

namespace Leads

variable {I : σ → List ε → σ → Prop} {p q : Routine σ ε χ α} {f : α → Routine σ ε χ β}

theorem pure (h : Path I) (a : α) : Leads I (pure a : Routine σ ε χ α) := fun s => h.nil s

theorem ask {answer : σ → α × σ} {event : α → ε} (h : ∀ s, I s [event (answer s).1] (answer s).2) :
    Leads I (ask answer event : Routine σ ε χ α) := h

theorem bind (h : Path I) (hp : Leads I p) (hf : ∀ a, Leads I (f a)) : Leads I (p >>= f) := by
  intro s
  have hfirst := hp s
  rcases hrun : p s with ⟨_ | x | a, t, l⟩
  · rw [hrun] at hfirst
    rwa [bind_of_cut hrun]
  · rw [hrun] at hfirst
    rwa [bind_of_left hrun]
  · rw [hrun] at hfirst
    rw [bind_of_value hrun]
    exact h.append hfirst (hf a t)

theorem ite {c : Prop} [Decidable c] (hp : Leads I p) (hq : Leads I q) :
    Leads I (if c then p else q) := by
  split
  · exact hp
  · exact hq

theorem turns (h : Path I) {body : ι → Routine σ ε χ (ι ⊕ α)}
    (hbody : ∀ i, Leads I (body i)) (n : ℕ) (i : ι) : Leads I (turns body n i) := by
  induction n generalizing i with
  | zero => exact fun s => h.nil s
  | succ n ih =>
    apply bind h (hbody i)
    intro r
    cases r with
    | inl j => exact ih j
    | inr a => exact pure h a

end Leads

/-! ## Routines that differ in entries of no account -/

/-- Wherever `p` is not cut, `q` does the same, but for the entries that are not kept. -/
def Follows (keep : ε → Bool) (p q : Routine σ ε χ α) : Prop :=
  ∀ s, (p s).value ≠ .cut → q s = ⟨(p s).value, (p s).env, (p s).log.filter keep⟩

namespace Follows

variable {keep : ε → Bool} {p q : Routine σ ε χ α}

theorem pure (a : α) : Follows keep (pure a : Routine σ ε χ α) (pure a) := fun _ _ => rfl

theorem ask {answer : σ → α × σ} {event : α → ε} (h : ∀ a, keep (event a) = true) :
    Follows keep (ask answer event : Routine σ ε χ α) (ask answer event) := by
  intro s _
  simp [h]

theorem bind {f g : α → Routine σ ε χ β} (hp : Follows keep p q)
    (hf : ∀ a, Follows keep (f a) (g a)) : Follows keep (p >>= f) (q >>= g) := by
  intro s hs
  have hfirst := hp s
  rcases hrun : p s with ⟨_ | x | a, t, log⟩
  · rw [bind_of_cut hrun] at hs
    exact absurd rfl hs
  · rw [hrun] at hfirst
    rw [bind_of_left hrun, bind_of_left (hfirst (by simp))]
  · rw [hrun] at hfirst
    rw [bind_of_value hrun] at hs ⊢
    rw [bind_of_value (hfirst (by simp)), hf a t hs]
    simp

theorem ite {c : Prop} [Decidable c] {p' q' : Routine σ ε χ α} (hp : Follows keep p q)
    (hq : Follows keep p' q') : Follows keep (if c then p else p') (if c then q else q') := by
  split
  · exact hp
  · exact hq

theorem turns {body body' : ι → Routine σ ε χ (ι ⊕ α)}
    (hbody : ∀ i, Follows keep (body i) (body' i))
    (n : ℕ) (i : ι) : Follows keep (turns body n i) (turns body' n i) := by
  induction n generalizing i with
  | zero =>
    intro s hs
    exact absurd rfl hs
  | succ n ih =>
    apply bind (hbody i)
    intro r
    cases r with
    | inl j => exact ih j
    | inr a => exact pure a

end Follows

/-! ## Asking again -/

section Again

variable (again : α → Bool) (answer : σ → α × σ) (event : α → ε) (wait : σ → β × σ) (waited : β → ε)

def tryOnce : Routine σ ε χ (Unit ⊕ α) := do
  let a ← ask answer event
  if again a then
    let _ ← ask wait waited
    pure (.inl ())
  else
    pure (.inr a)

/-- To ask until the answer is no call for another try, with a pause before every other try. -/
def retry (n : ℕ) : Routine σ ε χ α := turns (fun _ => tryOnce again answer event wait waited) n ()

/-- The first answer that is no call for another try, if it comes within `n` tries. -/
def firstAnswer : ℕ → σ → α × σ
  | 0, s => answer s
  | n + 1, s => if again (answer s).1 then firstAnswer n (wait (answer s).2).2 else answer s

variable {again answer event wait waited}

/-- To ask again and again is to ask once whoever gives the first answer that settles it. -/
theorem follows_retry {keep : ε → Bool} (hkeep : ∀ a, keep (event a) = !again a)
    (hwaited : ∀ b, keep (waited b) = false) (n : ℕ) :
    Follows keep (retry again answer event wait waited n : Routine σ ε χ α)
      (ask (firstAnswer again answer wait n) event) := by
  induction n with
  | zero =>
    intro s hs
    exact absurd rfl hs
  | succ n ih =>
    intro s hs
    cases hagain : again (answer s).1 with
    | true =>
      have htry : (tryOnce again answer event wait waited : Routine σ ε χ (Unit ⊕ α)) s =
          ⟨.value (.inl ()), (wait (answer s).2).2,
            [event (answer s).1, waited (wait (answer s).2).1]⟩ := by
        simp [tryOnce, hagain]
      rw [retry, turns_of_next n htry] at hs ⊢
      have hrest := ih _ hs
      simp only [ask_apply, Outcome.mk.injEq, retry] at hrest ⊢
      simp [firstAnswer, hagain, hkeep, hwaited, hrest]
    | false =>
      have htry : (tryOnce again answer event wait waited : Routine σ ε χ (Unit ⊕ α)) s =
          ⟨.value (.inr (answer s).1), (answer s).2, [event (answer s).1]⟩ := by
        simp [tryOnce, hagain]
      rw [retry, turns_of_done n htry]
      simp [firstAnswer, hagain, hkeep]

end Again

end InterruptedPrograms
