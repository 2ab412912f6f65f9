import Mathlib.Logic.Function.Basic
import Mathlib.Data.Nat.Notation

/-!
# Calls that are resumed by repeating them

A request of some kind is answered by its final code after it has been put off any number
of times; a call made after that is another request. An operation makes calls and ends
with a result. A caller that is told results alone repeats it as long as they seem to ask
for it, and the outcome is compared with that of one attempt in which nothing is put off.
-/
namespace ResumableCalls

/-- The answer `block` puts a request off; its last answer is another. -/
structure Reply {γ : Type} (block : γ) where
  delay : ℕ
  code : γ
  final : code ≠ block

/-- The replies to the requests of each kind, in the order in which these are made. -/
abbrev Schedule (κ : Type) {γ : Type} (block : γ) := κ → ℕ → Reply block

/-- What an operation does when the calls of each kind are answered like this: its result and the
state behind it, and the calls in their order, with their answers. -/
structure Operation (κ γ σ ρ : Type) where
  run : (κ → γ) → σ → ρ × σ
  calls : (κ → γ) → σ → List (κ × γ)

variable {κ γ σ ρ : Type} {block : γ}

namespace Schedule

/-- The next answers: what is to be put off is answered `block`. -/
def answers (S : Schedule κ block) (k : κ) : γ :=
  if (S k 0).delay = 0 then (S k 0).code else block

def finals (S : Schedule κ block) (k : κ) : γ := (S k 0).code

theorem answers_of_undelayed {S : Schedule κ block} {k : κ} (h : (S k 0).delay = 0) :
    S.answers k = S.finals k := if_pos h

theorem answers_of_delayed {S : Schedule κ block} {k : κ} (h : (S k 0).delay ≠ 0) :
    S.answers k = block := if_neg h

/-- One call of the kind has been answered. -/
def advance [DecidableEq κ] (S : Schedule κ block) (k : κ) : Schedule κ block :=
  Function.update S k <| match (S k 0).delay with
    | 0 => fun i => S k (i + 1)
    | d + 1 => fun i => if i = 0 then ⟨d, (S k 0).code, (S k 0).final⟩ else S k i

end Schedule

variable [DecidableEq κ] [DecidableEq γ]

/-- The requests that are completed among the calls. -/
def completed (block : γ) (calls : List (κ × γ)) : List (κ × γ) := calls.filter (·.2 ≠ block)

/-- At most `n` attempts, each repeated if the caller wants it again: the result of the last and
the requests that all of them completed. -/
def retry (op : Operation κ γ σ ρ) (again : ρ → List (κ × γ) → Bool) :
    ℕ → Schedule κ block → σ → Option (ρ × List (κ × γ))
  | 0, _, _ => none
  | n + 1, S, s =>
    let r := op.run S.answers s
    let calls := op.calls S.answers s
    if again r.1 calls then
      (retry op again n ((calls.map Prod.fst).foldl Schedule.advance S) r.2).map fun o =>
        (o.1, completed block calls ++ o.2)
    else some (r.1, completed block calls)

/-- One attempt in which nothing is put off. -/
def once (op : Operation κ γ σ ρ) (S : Schedule κ block) (s : σ) : ρ × List (κ × γ) :=
  ((op.run S.finals s).1, completed block (op.calls S.finals s))

/-- Answered like this the operation fails, and not because a call was put off. -/
def Fails (op : Operation κ γ σ ρ) (ok block : γ) (a : κ → γ) (s : σ) : Prop :=
  (∃ x ∈ op.calls a s, x.2 ≠ ok) ∧ ∀ x ∈ op.calls a s, x.2 ≠ block

/-- Some caller who goes by the results, and takes no failure for a call that was put off, ends up
where one undelayed attempt ends. -/
def Resumes (op : Operation κ γ σ ρ) (ok : γ) (S : Schedule κ block) (s : σ) : Prop :=
  ∃ reports : ρ → Bool, (∀ a, Fails op ok block a s → reports (op.run a s).1 = false) ∧
    ∃ n, retry op (fun r _ => reports r) n S s = some (once op S s)

variable {op : Operation κ γ σ ρ} {ok : γ} {S : Schedule κ block} {s : σ}

theorem retry_again {again : ρ → List (κ × γ) → Bool}
    (h : again (op.run S.answers s).1 (op.calls S.answers s) = true) (n : ℕ) :
    retry op again (n + 1) S s =
      (retry op again n
        (((op.calls S.answers s).map Prod.fst).foldl Schedule.advance S)
        (op.run S.answers s).2).map
          fun o => (o.1, completed block (op.calls S.answers s) ++ o.2) := by
  simp [retry, h]

theorem retry_enough {again : ρ → List (κ × γ) → Bool}
    (h : again (op.run S.answers s).1 (op.calls S.answers s) = false) (n : ℕ) :
    retry op again (n + 1) S s =
      some ((op.run S.answers s).1, completed block (op.calls S.answers s)) := by
  simp [retry, h]

/-- An attempt that meets no delay is the undelayed one. -/
theorem resumes_of_undelayed (hrun : (op.run S.answers s).1 = (op.run S.finals s).1)
    (hcalls : op.calls S.answers s = op.calls S.finals s) : Resumes op ok S s :=
  ⟨fun _ => false, fun _ _ => rfl, 1, by rw [retry_enough rfl, hrun, hcalls]; rfl⟩

/-- A first attempt that is put off and ends as a failure would, so that no caller tries again. -/
theorem not_resumes_of_merged {a : κ → γ} (ha : Fails op ok block a s)
    (hrun : (op.run a s).1 = (op.run S.answers s).1)
    (hcalls : completed block (op.calls S.answers s) ≠ completed block (op.calls S.finals s)) :
    ¬ Resumes op ok S s := by
  rintro ⟨reports, htells, n, hn⟩
  have hstop : reports (op.run S.answers s).1 = false := hrun ▸ htells a ha
  cases n with
  | zero => cases hn
  | succ n =>
    rw [retry_enough hstop] at hn
    exact hcalls (congrArg Prod.snd (Option.some.inj hn))

/-! ## Operations that make one call after another -/

/-- The calls in their order, up to the first that is not answered `ok`. -/
def attempt (ok : γ) (a : κ → γ) : List κ → List (κ × γ)
  | [] => []
  | k :: ks => (k, a k) :: if a k = ok then attempt ok a ks else []

omit [DecidableEq κ] in
@[simp]
theorem attempt_singleton (ok : γ) (a : κ → γ) (k : κ) : attempt ok a [k] = [(k, a k)] := by
  rw [attempt, attempt, ite_self]

/-- What is left of the answers when all but `ok` are one. -/
def verdicts (ok : γ) (calls : List (κ × γ)) : List (κ × Bool) :=
  calls.map fun x => (x.1, decide (x.2 = ok))

/-- The result tells no answer other than `ok` from another. -/
def Merges (op : Operation κ γ σ ρ) (ok : γ) (s : σ) : Prop :=
  ∀ a b, verdicts ok (op.calls a s) = verdicts ok (op.calls b s) →
    (op.run a s).1 = (op.run b s).1

omit [DecidableEq κ] in
theorem attempt_undelayed {ks : List κ}
    (h : ∀ x ∈ attempt ok S.finals ks, (S x.1 0).delay = 0) :
    attempt ok S.answers ks = attempt ok S.finals ks := by
  induction ks with
  | nil => rfl
  | cons k ks ih =>
    have hk : S.answers k = S.finals k := Schedule.answers_of_undelayed (h _ List.mem_cons_self)
    by_cases hok : S.finals k = ok
    · have hrest := ih fun x hx => h x (by
        rw [attempt, if_pos hok]
        exact List.mem_cons_of_mem _ hx)
      rw [attempt, attempt, hk, hrest]
    · rw [attempt, attempt, hk, if_neg hok, if_neg hok]

omit [DecidableEq κ] in
/-- The first call that is put off is the last of the attempt, and its request is not completed. -/
theorem attempt_delayed (hblock : block ≠ ok) {ks : List κ}
    (h : ∃ x ∈ attempt ok S.finals ks, (S x.1 0).delay ≠ 0) :
    (∃ x ∈ attempt ok S.answers ks, x.2 = block) ∧
      completed block (attempt ok S.answers ks) ≠ completed block (attempt ok S.finals ks) := by
  induction ks with
  | nil => simp [attempt] at h
  | cons k ks ih =>
    have hfinal : S.finals k ≠ block := (S k 0).final
    by_cases hk : (S k 0).delay = 0
    · have hans : S.answers k = S.finals k := Schedule.answers_of_undelayed hk
      by_cases hok : S.finals k = ok
      · rw [attempt, if_pos hok] at h
        obtain ⟨x, hx, hdelay⟩ := h
        have hrest : x ∈ attempt ok S.finals ks :=
          (List.mem_cons.1 hx).resolve_left fun heq => hdelay (heq ▸ hk)
        obtain ⟨⟨y, hy, hyblock⟩, hne⟩ := ih ⟨x, hrest, hdelay⟩
        rw [attempt, attempt, hans, if_pos hok, if_pos hok]
        refine ⟨⟨y, List.mem_cons_of_mem _ hy, hyblock⟩, fun heq => hne ?_⟩
        simpa [completed, hfinal] using heq
      · rw [attempt, if_neg hok] at h
        obtain ⟨x, hx, hdelay⟩ := h
        rw [List.mem_singleton.1 hx] at hdelay
        exact absurd hk hdelay
    · have hans : S.answers k = block := Schedule.answers_of_delayed hk
      rw [attempt, attempt, hans, if_neg hblock]
      refine ⟨⟨_, List.mem_cons_self, rfl⟩, ?_⟩
      simp [completed, hfinal]

omit [DecidableEq κ] in
theorem exists_failed_iff (calls : List (κ × γ)) :
    (∃ x ∈ calls, x.2 ≠ ok) ↔ ∃ v ∈ verdicts ok calls, v.2 = false := by
  constructor
  · intro ⟨x, hx, hne⟩
    exact ⟨_, List.mem_map_of_mem hx, decide_eq_false hne⟩
  · intro ⟨v, hv, hfalse⟩
    obtain ⟨x, hx, rfl⟩ := List.mem_map.1 hv
    exact ⟨x, hx, of_decide_eq_false hfalse⟩

omit [DecidableEq κ] in
theorem attempt_answer {a : κ → γ} {ks : List κ} {x : κ × γ} (hx : x ∈ attempt ok a ks) :
    x.2 = a x.1 := by
  induction ks with
  | nil => simp [attempt] at hx
  | cons k ks ih =>
    rcases List.mem_cons.1 hx with rfl | hx
    · rfl
    · split at hx
      · exact ih hx
      · simp at hx

omit [DecidableEq κ] in
theorem verdicts_attempt {a b : κ → γ} (h : ∀ k, a k = ok ↔ b k = ok) (ks : List κ) :
    verdicts ok (attempt ok a ks) = verdicts ok (attempt ok b ks) := by
  induction ks with
  | nil => rfl
  | cons k ks ih =>
    by_cases hk : a k = ok
    · simpa [verdicts, attempt, hk, (h k).1 hk] using ih
    · have hk' : b k ≠ ok := fun hb => hk ((h k).2 hb)
      simp [verdicts, attempt, hk, hk']

/-- Where results merge the answers, nothing may be put off. -/
theorem resumes_iff_undelayed {ks : List κ} (hblock : block ≠ ok) {c : γ} (hc : c ≠ ok)
    (hc' : c ≠ block) (hmerge : Merges op ok s) (hcalls : ∀ a, op.calls a s = attempt ok a ks) :
    Resumes op ok S s ↔ ∀ x ∈ attempt ok S.finals ks, (S x.1 0).delay = 0 := by
  constructor
  · intro hres x hx
    by_contra hdelay
    obtain ⟨hput, hne⟩ := attempt_delayed hblock ⟨x, hx, hdelay⟩
    -- the same answers, but for a failure in place of each call that is put off
    let a : κ → γ := fun k => if S.answers k = block then c else S.answers k
    have hsame : ∀ k, a k = ok ↔ S.answers k = ok := fun k => by
      by_cases hk : S.answers k = block
      · simp [a, hk, hc, hblock]
      · simp [a, hk]
    have hverdicts := verdicts_attempt hsame ks
    have hfails : ∃ y ∈ attempt ok a ks, y.2 ≠ ok := by
      rw [exists_failed_iff, hverdicts, ← exists_failed_iff]
      obtain ⟨y, hy, hyblock⟩ := hput
      exact ⟨y, hy, hyblock ▸ hblock⟩
    have hnone : ∀ y ∈ attempt ok a ks, y.2 ≠ block := fun y hy => by
      rw [attempt_answer hy]
      by_cases hk : S.answers y.1 = block
      · rwa [show a y.1 = c from if_pos hk]
      · rwa [show a y.1 = S.answers y.1 from if_neg hk]
    refine not_resumes_of_merged (a := a) ?_ (hmerge _ _ ?_) ?_ hres
    · exact ⟨hcalls a ▸ hfails, hcalls a ▸ hnone⟩
    · rw [hcalls, hcalls, hverdicts]
    · rwa [hcalls, hcalls]
  · intro hdelay
    have hsame := attempt_undelayed hdelay
    exact resumes_of_undelayed (hmerge _ _ (by rw [hcalls, hcalls, hsame]))
      (by rw [hcalls, hcalls, hsame])

/-! ## Callers who are told of delays -/

/-- A call of the attempt was put off. -/
def putOff (block : γ) (calls : List (κ × γ)) : Bool := calls.any (·.2 = block)

/-- Of two calls the first is made again for each time the second is put off. -/
theorem retry_repeats (hblock : block ≠ ok) {k l : κ} (hkl : k ≠ l)
    (hcalls : ∀ a s, op.calls a s = attempt ok a [k, l])
    (hk : ∀ i, (S k i).delay = 0 ∧ (S k i).code = ok) :
    ∃ r, retry op (fun _ calls => putOff block calls) ((S l 0).delay + 1) S s =
      some (r, List.replicate ((S l 0).delay + 1) (k, ok) ++ [(l, (S l 0).code)]) := by
  generalize hd : (S l 0).delay = d
  induction d generalizing S s with
  | zero =>
    have hans : op.calls S.answers s = [(k, ok), (l, (S l 0).code)] := by
      simp [hcalls, attempt, Schedule.answers, hk, hd]
    have hstop : putOff block (op.calls S.answers s) = false := by
      simp [hans, putOff, hblock.symm, (S l 0).final]
    have hdone : completed block (op.calls S.answers s) = [(k, ok), (l, (S l 0).code)] := by
      simp [hans, completed, hblock.symm, (S l 0).final]
    exact ⟨(op.run S.answers s).1, by rw [retry_enough hstop, hdone]; rfl⟩
  | succ d ih =>
    have hans : op.calls S.answers s = [(k, ok), (l, block)] := by
      simp [hcalls, attempt, Schedule.answers, hk, hd]
    have hagain : putOff block (op.calls S.answers s) = true := by simp [hans, putOff]
    have hdone : completed block (op.calls S.answers s) = [(k, ok)] := by
      simp [hans, completed, hblock.symm]
    -- the request of the first kind is answered, that of the second nearer its answer by one
    let S' := (S.advance k).advance l
    have hfirst : ∀ i, S' k i = S k (i + 1) := fun i => by
      simp [S', Schedule.advance, hkl, hk]
    have hsecond : (S' l 0).delay = d ∧ (S' l 0).code = (S l 0).code := by
      simp [S', Schedule.advance, hkl.symm, hd]
    obtain ⟨r, hr⟩ := ih (S := S') (s := (op.run S.answers s).2)
      (fun i => hfirst i ▸ hk (i + 1)) hsecond.1
    refine ⟨r, ?_⟩
    rw [retry_again hagain, hdone, hans]
    have hrest := congrArg (Option.map fun o => (o.1, [(k, ok)] ++ o.2)) hr
    simpa [List.replicate_succ, hsecond.2] using hrest

end ResumableCalls
