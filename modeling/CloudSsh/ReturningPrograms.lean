import CloudSsh.InterruptedPrograms

/-!
# Programs that come to an end

A routine with a budget comes to an end if every budget from some size on gives one and the same
outcome, which is not cut. Loops do so if a measure falls in every turn.
-/
namespace ReturningPrograms
open EnvironmentPrograms InterruptedPrograms

variable {σ ε χ ι α β : Type}

/-- How an outcome that is not cut ends. -/
def Ends (Post : α → σ → Prop) (Left : χ → σ → Prop) (o : Outcome σ ε (Ending χ α)) : Prop :=
  match o.value with
  | .cut => False
  | .left x => Left x o.env
  | .value a => Post a o.env

/-- Whatever the budget is, if only it is large enough: the outcome is the same, made of `Good`
entries only, and ends in `Post` or `Left`. -/
def Returns (Good : ε → Prop) (P : ℕ → Routine σ ε χ α) (s : σ) (Post : α → σ → Prop)
    (Left : χ → σ → Prop) : Prop :=
  ∃ n₀ o, (∀ n, n₀ ≤ n → P n s = o) ∧ (∀ e ∈ o.log, Good e) ∧ Ends Post Left o

namespace Returns

variable {Good : ε → Prop} {s : σ} {Post Mid : α → σ → Prop} {Left : χ → σ → Prop}
variable {Last : β → σ → Prop}

theorem pure {a : α} (h : Post a s) :
    Returns Good (fun _ => (pure a : Routine σ ε χ α)) s Post Left :=
  ⟨0, ⟨.value a, s, []⟩, fun _ _ => rfl, by simp, h⟩

theorem ask {answer : σ → α × σ} {event : α → ε} (hgood : Good (event (answer s).1))
    (h : Post (answer s).1 (answer s).2) :
    Returns Good (fun _ => (ask answer event : Routine σ ε χ α)) s Post Left :=
  ⟨0, ⟨.value (answer s).1, (answer s).2, [event (answer s).1]⟩,
    fun _ _ => rfl, by simpa using hgood, h⟩

theorem note {event : ε} {Post : Unit → σ → Prop} (hgood : Good event) (h : Post () s) :
    Returns Good (fun _ => (note event : Routine σ ε χ Unit)) s Post Left :=
  ask hgood h

theorem bind {P : ℕ → Routine σ ε χ α} {F : ℕ → α → Routine σ ε χ β}
    (hP : Returns Good P s Mid Left)
    (hF : ∀ a t, Mid a t → Returns Good (fun n => F n a) t Last Left) :
    Returns Good (fun n => P n >>= F n) s Last Left := by
  obtain ⟨n₀, ⟨v, t, l⟩, hrun, hlog, hend⟩ := hP
  cases v with
  | cut => exact hend.elim
  | left x =>
    refine ⟨n₀, ⟨.left x, t, l⟩, ?_, hlog, hend⟩
    intro n hn
    exact bind_of_left (hrun n hn)
  | value a =>
    obtain ⟨n₁, o, hrun', hlog', hend'⟩ := hF a t hend
    refine ⟨max n₀ n₁, ⟨o.value, o.env, l ++ o.log⟩, ?_, ?_, hend'⟩
    · intro n hn
      have hsecond : F n a t = o := hrun' n (by omega)
      change (P n >>= F n) s = _
      rw [bind_of_value (hrun n (by omega)), hsecond]
    · exact List.forall_mem_append.mpr ⟨hlog, hlog'⟩

theorem ite {c : Prop} [Decidable c] {P Q : ℕ → Routine σ ε χ α}
    (hP : c → Returns Good P s Post Left) (hQ : ¬ c → Returns Good Q s Post Left) :
    Returns Good (fun n => if c then P n else Q n) s Post Left := by
  by_cases hc : c
  · simpa [hc] using hP hc
  · simpa [hc] using hQ hc

theorem mono (h : Returns Good (P : ℕ → Routine σ ε χ α) s Mid Left)
    (hpost : ∀ a t, Mid a t → Post a t) :
    Returns Good P s Post Left := by
  obtain ⟨n₀, o, hrun, hlog, hend⟩ := h
  refine ⟨n₀, o, hrun, hlog, ?_⟩
  unfold Ends at hend ⊢
  split at hend
  · exact hend
  · exact hend
  · exact hpost _ _ hend

/-- A loop whose turns come to an end, each with a smaller measure than the one before,
comes to an end. The induction is on the measure; the budget of the turns and that of the
loop are told apart. -/
theorem turns {B : ℕ → ι → Routine σ ε χ (ι ⊕ α)} (μ : ι → σ → ℕ) (Inv : ι → σ → Prop)
    (hbody : ∀ i s, Inv i s → Returns Good (fun n => B n i) s
      (fun r t => r.elim (fun j => Inv j t ∧ μ j t < μ i s) (Post · t)) Left)
    {i : ι} (h : Inv i s) : Returns Good (fun n => turns (B n) n i) s Post Left := by
  have hall : ∀ m i s, Inv i s → μ i s = m → ∃ n₀ o,
      (∀ n k, n₀ ≤ n → n₀ ≤ k → InterruptedPrograms.turns (B n) k i s = o) ∧
        (∀ e ∈ o.log, Good e) ∧ Ends Post Left o := by
    intro m
    induction m using Nat.strongRecOn with
    | ind m ih =>
      intro i s hi hm
      obtain ⟨n₀, ⟨v, t, l⟩, hrun, hlog, hend⟩ := hbody i s hi
      cases v with
      | cut => exact hend.elim
      | left x =>
        refine ⟨n₀ + 1, ⟨.left x, t, l⟩, ?_, hlog, hend⟩
        intro n k hn hk
        obtain ⟨k, rfl⟩ := Nat.exists_eq_add_of_le' (Nat.le_of_add_left_le hk)
        exact bind_of_left (hrun n (by omega))
      | value r =>
        cases r with
        | inr a =>
          refine ⟨n₀ + 1, ⟨.value a, t, l⟩, ?_, hlog, hend⟩
          intro n k hn hk
          obtain ⟨k, rfl⟩ := Nat.exists_eq_add_of_le' (Nat.le_of_add_left_le hk)
          exact turns_of_done k (hrun n (by omega))
        | inl j =>
          obtain ⟨n₁, o, hrun', hlog', hend'⟩ := ih _ (hm ▸ hend.2) j t hend.1 rfl
          refine ⟨max n₀ n₁ + 1, ⟨o.value, o.env, l ++ o.log⟩, ?_,
            List.forall_mem_append.mpr ⟨hlog, hlog'⟩, hend'⟩
          intro n k hn hk
          obtain ⟨k, rfl⟩ := Nat.exists_eq_add_of_le' (Nat.le_of_add_left_le hk)
          rw [turns_of_next k (hrun n (by omega)), hrun' n k (by omega) (by omega)]
  obtain ⟨n₀, o, hrun, hlog, hend⟩ := hall _ i s h rfl
  exact ⟨n₀, o, fun n hn => hrun n n hn hn, hlog, hend⟩

end Returns

/-! ## A budget that is large enough -/

/-- Wherever it is started, the routine is not cut, and what it yields is in `Q`. -/
def Stops (p : Routine σ ε χ α) (Q : α → Prop) : Prop :=
  ∀ s, Ends (fun a _ => Q a) (fun _ _ => True) (p s)

namespace Stops

variable {p q : Routine σ ε χ α} {Q : α → Prop} {R : β → Prop} {f : α → Routine σ ε χ β}

theorem pure {a : α} (h : Q a) : Stops (pure a : Routine σ ε χ α) Q := fun _ => h

theorem leave (x : χ) : Stops (leave x : Routine σ ε χ α) Q := fun _ => trivial

theorem ask {answer : σ → α × σ} {event : α → ε} (h : ∀ s, Q (answer s).1) :
    Stops (ask answer event : Routine σ ε χ α) Q := h

theorem bind (hp : Stops p Q) (hf : ∀ a, Q a → Stops (f a) R) : Stops (p >>= f) R := by
  intro s
  have hfirst := hp s
  rcases hrun : p s with ⟨_ | x | a, t, l⟩
  · rw [hrun] at hfirst
    exact hfirst.elim
  · rw [bind_of_left hrun]
    trivial
  · rw [hrun] at hfirst
    rw [bind_of_value hrun]
    exact hf a hfirst t

theorem ite {c : Prop} [Decidable c] (hp : c → Stops p Q) (hq : ¬ c → Stops q Q) :
    Stops (if c then p else q) Q := by
  split
  · exact hp ‹_›
  · exact hq ‹_›

/-- A loop that has as many turns as a bound that falls in each. -/
theorem turns {body : ι → Routine σ ε χ (ι ⊕ α)} (Inv : ℕ → ι → Prop)
    (hbody : ∀ m i, Inv m i → Stops (body i) fun r => r.elim (fun j => ∃ k < m, Inv k j) Q)
    {m n : ℕ} {i : ι} (h : Inv m i) (hm : m < n) : Stops (turns body n i) Q := by
  induction n generalizing m i with
  | zero => exact absurd hm (Nat.not_lt_zero m)
  | succ n ih =>
    apply bind (hbody m i h)
    intro r hr
    cases r with
    | inl j =>
      obtain ⟨k, hk, hj⟩ := hr
      exact ih hj (by omega)
    | inr a => exact pure hr

theorem not_cut (h : Stops p Q) (s : σ) : (p s).value ≠ .cut := by
  intro hcut
  have hend := h s
  rw [Ends, hcut] at hend
  exact hend

end Stops

end ReturningPrograms
