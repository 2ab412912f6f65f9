import CloudSsh.RelayLoop

/-!
# Keyboard readiness

Input waits in two places: queued on descriptor 0 in the kernel, and in the buffer of
stdio, which `getchar` fills from the queue as far as it can. `select` sees the first
of them only. The schedule says what arrives between any two calls and which calls of
`select` are interrupted; the channel answers as it likes.
-/
namespace CloudSsh.KeyboardReadiness
open EnvironmentPrograms RelayLoop

/-- The bytes queued on descriptor 0, whether input ends behind them, and the bytes that stdio
has taken from the descriptor and not handed out yet. -/
structure Keyboard where
  queued : List Byte
  closed : Bool
  stdio : List Byte
  calls : ℕ

/-- What happens around the calls of a run, numbered in the order they are made. -/
structure Schedule where
  bufsiz : ℕ
  bufsiz_pos : 0 < bufsiz
  /-- What has arrived by the time the call returns. -/
  arrives : ℕ → List Byte
  closes : ℕ → Bool
  interrupted : ℕ → Bool
  /-- The byte that ends the wait of a `getchar` which found nothing to take. -/
  awaited : ℕ → Byte
  isEof : ℕ → Int
  read : (len : ℕ) → ℕ → ReadResult len
  beyond : ℕ → List Byte
  write : ℕ → WriteResult

namespace Keyboard

/-- A byte or end of input is queued on the descriptor; this is what `select` looks at. -/
def Queued (k : Keyboard) : Prop := k.queued ≠ [] ∨ k.closed = true

instance (k : Keyboard) : Decidable k.Queued := inferInstanceAs (Decidable (_ ∨ _))

/-- `getchar` has something to return without waiting. -/
def Available (k : Keyboard) : Prop := k.stdio ≠ [] ∨ k.Queued

instance (k : Keyboard) : Decidable k.Available := inferInstanceAs (Decidable (_ ∨ _))

/-- The next call returns: input has arrived meanwhile, unless it had ended. -/
def settle (sched : Schedule) (k : Keyboard) : Keyboard where
  queued := if k.closed then k.queued else k.queued ++ sched.arrives k.calls
  closed := k.closed || sched.closes k.calls
  stdio := k.stdio
  calls := k.calls + 1

/-- `getchar`: from the stdio buffer if it holds a byte, else from the first of up to a buffer's
worth of queued bytes, else end of input, else wait. -/
def getchar (sched : Schedule) (k : Keyboard) : Option Byte × Keyboard :=
  match k.stdio with
  | c :: stdio => (some c, { k with stdio := stdio })
  | [] => match k.queued.take sched.bufsiz with
    | c :: stdio => (some c, { k with stdio := stdio, queued := k.queued.drop sched.bufsiz })
    | [] => if k.closed then (none, k) else (some (sched.awaited k.calls), k)

/-- The kernel's view of the descriptor, or an interruption. -/
def select (sched : Schedule) (k : Keyboard) : Int :=
  if sched.interrupted k.calls then -1 else if k.Queued then 1 else 0

end Keyboard

/-- The loop's system under a schedule. -/
def system (sched : Schedule) : System Keyboard where
  isEof k := (sched.isEof k.calls, k.settle sched)
  read len k := (sched.read len k.calls, k.settle sched)
  beyond k := sched.beyond k.calls
  select k := (k.select sched, k.settle sched)
  getchar k := ((k.getchar sched).1, (k.getchar sched).2.settle sched)
  write _ k := (sched.write k.calls, k.settle sched)
  usleep k := k.settle sched

/-- The keyboard when the program starts: stdio has taken nothing yet. -/
def start (queued : List Byte) (closed : Bool) : Keyboard := ⟨queued, closed, [], 0⟩

/-- `getchar` is called only when it need not wait, and a negative readiness test is right about
the stdio buffer too. -/
def Prompt : Entry Keyboard → Prop
  | (k, .getchar _) => k.Available
  | (k, .select _ _ _ ret) => ret = 0 → k.stdio = []
  | _ => True

instance : DecidablePred Prompt
  | (k, .getchar _) => inferInstanceAs (Decidable k.Available)
  | (k, .select _ _ _ ret) => inferInstanceAs (Decidable (ret = 0 → k.stdio = []))
  | (_, .clearBlocking) | (_, .isEof _) | (_, .read _ _ _) | (_, .printString _ _) | (_, .fflush)
  | (_, .print _) | (_, .write _ _) | (_, .usleep _) | (_, .system _) =>
    inferInstanceAs (Decidable True)

/-- Keys come one by one: a `getchar` that turns to the descriptor takes no more than one byte
from it, and `select` is interrupted only while it would have reported the descriptor ready. -/
def OneByOne (sched : Schedule) : Entry Keyboard → Prop
  | (k, .getchar _) => k.stdio = [] → (k.queued.take sched.bufsiz).length ≤ 1
  | (k, .select _ _ _ ret) => ret = -1 → k.Queued
  | _ => True

instance (sched : Schedule) : DecidablePred (OneByOne sched)
  | (k, .getchar _) =>
    inferInstanceAs (Decidable (k.stdio = [] → (k.queued.take sched.bufsiz).length ≤ 1))
  | (k, .select _ _ _ ret) => inferInstanceAs (Decidable (ret = -1 → k.Queued))
  | (_, .clearBlocking) | (_, .isEof _) | (_, .read _ _ _) | (_, .printString _ _) | (_, .fflush)
  | (_, .print _) | (_, .write _ _) | (_, .usleep _) | (_, .system _) =>
    inferInstanceAs (Decidable True)

namespace Keyboard

@[simp] theorem settle_stdio (sched : Schedule) (k : Keyboard) :
    (k.settle sched).stdio = k.stdio := rfl

/-- What is queued stays queued until it is taken. -/
theorem Queued.settle {k : Keyboard} (h : k.Queued) (sched : Schedule) :
    (k.settle sched).Queued := by
  rcases h with h | h
  · left
    by_cases hc : k.closed <;> simp [Keyboard.settle, hc, h]
  · right
    simp [Keyboard.settle, h]

/-- A readiness test that does not say no finds input, or was interrupted. -/
theorem queued_of_select {sched : Schedule} {k : Keyboard} (h : k.select sched ≠ 0)
    (hi : k.select sched = -1 → k.Queued) : k.Queued := by
  by_contra hq
  by_cases hs : sched.interrupted k.calls
  · exact hq (hi (by simp [select, hs]))
  · exact h (by simp [select, hs, hq])

/-- A `getchar` that takes at most one byte from the descriptor leaves stdio empty. -/
theorem getchar_stdio {sched : Schedule} {k : Keyboard} (hs : k.stdio = [])
    (h : (k.queued.take sched.bufsiz).length ≤ 1) : (k.getchar sched).2.stdio = [] := by
  cases ht : k.queued.take sched.bufsiz with
  | nil => by_cases hc : k.closed <;> simp [getchar, hs, ht, hc]
  | cons c rest =>
    rw [ht, List.length_cons] at h
    have hr : rest = [] := List.eq_nil_of_length_eq_zero (by omega)
    simp [getchar, hs, ht, hr]

end Keyboard

/-- While keys come one by one, stdio is empty at every call outside `getchar` and every call is
prompt. -/
def Emptied (sched : Schedule) (k : Keyboard) (log : List (Entry Keyboard)) : Prop :=
  (∀ e ∈ log, OneByOne sched e) → k.stdio = [] ∧ ∀ e ∈ log, Prompt e

/-- Calls that do not concern the keyboard. -/
private theorem emptied_append_silent {sched : Schedule} {k k' : Keyboard}
    {log rest : List (Entry Keyboard)} (h : Emptied sched k log) (hs : k'.stdio = k.stdio)
    (hp : ∀ e ∈ rest, Prompt e) : Emptied sched k' (log ++ rest) := by
  intro ho
  rw [List.forall_mem_append] at ho
  obtain ⟨he, hl⟩ := h ho.1
  exact ⟨hs.trans he, List.forall_mem_append.mpr ⟨hl, hp⟩⟩

theorem emptied_readRemote (sched : Schedule) :
    Keeps (Emptied sched) (readRemote (system sched)) := by
  intro k log h
  rcases readRemote_cases (system sched) k with ⟨_, _, _, k₁, hr, ho⟩ | ⟨_, _, k₁, hr, ho⟩ <;>
    (have hk : k₁ = k.settle sched := (congrArg Prod.snd hr).symm) <;> rw [ho]
  · exact emptied_append_silent h (by simp [hk]) (by simp [Prompt])
  · refine emptied_append_silent h (by simp [hk]) ?_
    split <;> simp [Prompt]

/-- A `getchar` behind a readiness test that did not say no. -/
private theorem emptied_append_key {sched : Schedule} {k : Keyboard} {ready : Int}
    {key : Option Byte} {log rest : List (Entry Keyboard)} {k' : Keyboard}
    (h : Emptied sched k log) (hready : k.select sched = ready) (hne : ready ≠ 0)
    (hs : k'.stdio = ((k.settle sched).getchar sched).2.stdio) (hp : ∀ e ∈ rest, Prompt e) :
    Emptied sched k' (log ++ (k, .select 1 [stdinFileno] (0, 0) ready) ::
      (k.settle sched, .getchar key) :: rest) := by
  intro ho
  simp only [List.forall_mem_append, List.forall_mem_cons] at ho
  obtain ⟨hlog, hsel, hkey, -⟩ := ho
  obtain ⟨he, hl⟩ := h hlog
  subst hready
  have hq : (k.settle sched).Queued := (Keyboard.queued_of_select hne hsel).settle sched
  refine ⟨hs.trans (Keyboard.getchar_stdio he (hkey he)), ?_⟩
  simp only [List.forall_mem_append, List.forall_mem_cons]
  exact ⟨hl, fun h0 => absurd h0 hne, .inr hq, hp⟩

theorem emptied_sendInput (sched : Schedule) :
    Keeps (Emptied sched) (sendInput (system sched)) := by
  intro k log h
  rcases sendInput_cases (system sched) k with ⟨k₁, hr, ho⟩ |
    ⟨ready, k₁, key, k₂, hr, hne, hk, _, ho⟩ |
    ⟨ready, k₁, c, k₂, st, k₃, hr, hne, hk, _, hw, ho⟩ <;>
    (obtain ⟨hready, rfl⟩ := Prod.mk.inj hr) <;> rw [ho]
  · intro hone
    rw [List.forall_mem_append] at hone
    obtain ⟨he, hl⟩ := h hone.1
    exact ⟨he, List.forall_mem_append.mpr ⟨hl, by simpa [Prompt] using he⟩⟩
  · obtain ⟨-, rfl⟩ := Prod.mk.inj hk
    exact emptied_append_key h hready hne (by simp) (by simp)
  · obtain ⟨-, rfl⟩ := Prod.mk.inj hk
    obtain ⟨-, rfl⟩ := Prod.mk.inj hw
    refine emptied_append_key h hready hne (by simp) ?_
    split <;> simp [Prompt]

theorem emptied_relayLoop (sched : Schedule) (n : ℕ) :
    Keeps (Emptied sched) (relayLoop (system sched) n) :=
  relayLoop_keeps (fun _ _ h => emptied_append_silent h rfl (by simp [isEof, Prompt]))
    (emptied_readRemote sched) (emptied_sendInput sched)
    (fun _ _ h => emptied_append_silent h rfl (by simp [Prompt])) n

/-- In every run in which keys come one by one, `getchar` never waits and a negative readiness
test leaves nothing behind in stdio. -/
theorem prompt_of_oneByOne (sched : Schedule) (queued : List Byte) (closed : Bool) (n : ℕ)
    (h : ∀ e ∈ (relayLoop (system sched) n (start queued closed)).log, OneByOne sched e) :
    ∀ e ∈ (relayLoop (system sched) n (start queued closed)).log, Prompt e := by
  have hrun := emptied_relayLoop sched n (start queued closed) [] (by simp [Emptied, start])
  simpa using (hrun (by simpa using h)).2

/-- A terminal on which nothing arrives behind what is queued at the start. -/
def quiet (interrupted : ℕ → Bool) : Schedule where
  bufsiz := 4096
  bufsiz_pos := by decide
  arrives _ := []
  closes _ := false
  interrupted := interrupted
  awaited _ := 0
  isEof _ := 0
  read _ _ := .failed libssh2ErrorEagain libssh2ErrorEagain_nonpos
  beyond _ := []
  write _ := byteWritten

/-- One key is pressed before a run of two iterations. -/
theorem prompt_single_key :
    let log := (relayLoop (system (quiet fun _ => false)) 2 (start [97] false)).log
    log ≠ [] ∧ ∀ e ∈ log, Prompt e :=
  ⟨by decide, prompt_of_oneByOne _ _ _ _ (by decide)⟩

/-- The three bytes of an arrow key are queued before a run of two iterations, so that the second
readiness test is wrong about stdio; or the first readiness test is interrupted with nothing
queued, so that `getchar` has to wait. -/
theorem burst_not_prompt :
    (¬ ∀ e ∈ (relayLoop (system (quiet fun _ => false)) 2 (start [27, 91, 65] false)).log,
      Prompt e) ∧
    ¬ ∀ e ∈ (relayLoop (system (quiet fun _ => true)) 1 (start [] false)).log, Prompt e := by
  decide

end CloudSsh.KeyboardReadiness
