import CloudSsh.ObjectCopies
import CloudSsh.CallByCall

/-!
# Null handles

A session may be created on NULL and a list of methods may be NULL. No other null handle
is ever used, so that nothing goes wrong as long as the library answers both with more
than NULL.
-/
namespace CloudSsh.NullHandles
open CountedHeap ResourceTraces Calls LibraryCalls WrapperObjects WrapperClasses PublicOperations
open OwnershipSteps OperationSteps ObjectCopies CallByCall RecordedPrograms

/-- A call is given a null handle, or `strstr` a null string. -/
def UsesNull (x : Call) : Prop := none ∈ handles x ∨ ∃ needle, x = .strstr none needle

def NullAnswer : Call → Bool
  | .sessionInit _ none | .userauthList _ _ none => true
  | _ => false

def callsOf (s : State) (o : ObjectOperation) : Trace := (s.objectStep o).trace.drop s.trace.length

/-- No call of the step is answered NULL. The list that `get_supported_auth_list` hands to the
program may be NULL. -/
def Answered (s : State) : ObjectOperation → Prop
  | .through (.getSupportedAuthList _ _ _) => True
  | o => ∀ x ∈ callsOf s o, NullAnswer x = false

def AllAnswered : State → List ObjectOperation → Prop
  | _, [] => True
  | s, o :: os => Answered s o ∧ AllAnswered (s.objectStep o) os

structure Clean (s : State) : Prop where
  sound : SoundState s
  owned : ∀ p ∈ objects s.world.heap, p.2.raw = none → p.2.kind = .ssh
  unused : ∀ x ∈ s.trace, ¬ UsesNull x

variable {s : State} {o : ObjectOperation} {tr : Trace}

def forgetCalls (s : State) : State :=
  { s with world := s.world.onStore fun t => { t with log := [] } }

theorem objectStep_calls (s : State) (o : ObjectOperation) :
    (s.objectStep o).trace = s.trace ++ callsOf s o ∧
      Alike (s.objectStep o) ((forgetCalls s).objectStep o) ∧
      ((forgetCalls s).objectStep o).trace = callsOf s o := by
  obtain ⟨xs, hsame, hs, ht⟩ := objectStep_alike (s := s) (t := forgetCalls s) ⟨rfl, rfl, rfl⟩ o
  have hcalls : callsOf s o = xs := by rw [callsOf, hs, List.drop_left]
  rw [hcalls]
  exact ⟨hs, hsame, ht⟩

/-- What is there is sound apart from how it came about. -/
theorem Clean.forget (h : Clean s) : SoundState (forgetCalls s) where
  balanced := h.sound.balanced
  typed := h.sound.typed
  below := h.sound.below
  owned := h.sound.owned
  numbered _ hx := nomatch hx
  null p hp hr := .inl (h.owned p hp hr)
  calls _ hx := nomatch hx

theorem Clean.step_of (h : Clean s) (hsession : ¬ NullSession (callsOf s o))
    (hlist : ∀ needle, .strstr none needle ∈ callsOf s o → ¬ NullList (callsOf s o)) :
    Clean (s.objectStep o) := by
  obtain ⟨hcalls, hsame, hnew⟩ := objectStep_calls s o
  have hsound := objectStep_sound h.forget o
  have hheap : (s.objectStep o).world.heap = ((forgetCalls s).objectStep o).world.heap :=
    congrArg Memory.heap hsame.core
  refine ⟨objectStep_sound h.sound o, fun p hp hr => ?_, fun x hx => ?_⟩
  · refine (hsound.null p (hheap ▸ hp) hr).resolve_right fun hnull => hsession ?_
    rw [← hnew]
    exact hnull.2
  · rw [hcalls] at hx
    rcases List.mem_append.mp hx with hx | hx
    · exact h.unused x hx
    · have hexcused : Excused (callsOf s o) x := by
        rw [← hnew] at hx ⊢
        exact hsound.calls x hx
      rintro (hn | ⟨needle, rfl⟩)
      · exact hsession (hexcused.1 hn)
      · exact hlist needle hx (hexcused.2 needle rfl)

theorem not_nullSession (h : ∀ x ∈ tr, NullAnswer x = false) : ¬ NullSession tr := by
  rintro ⟨lib, hx⟩
  exact absurd (h _ hx) (by simp [NullAnswer])

theorem not_nullList (h : ∀ x ∈ tr, NullAnswer x = false) : ¬ NullList tr := by
  rintro ⟨session, username, hx⟩
  exact absurd (h _ hx) (by simp [NullAnswer])

/-- `get_supported_auth_list` makes one call. -/
theorem callsOf_getSupportedAuthList (session : ℕ) (username : Bytes) (ret : Option Bytes) :
    ∀ x ∈ callsOf s (.through (.getSupportedAuthList session username ret)),
      ∃ h, x = .userauthList h username ret := by
  obtain ⟨hcalls, -, -⟩ := objectStep_calls s
    (.through (.getSupportedAuthList session username ret))
  simp only [State.objectStep, State.step] at hcalls
  intro x hx
  split at hcalls
  · have hrun : (Operation.getSupportedAuthList session username ret).program s.world =
        (.ok [], s.world.onStore (Store.issue
          (.userauthList (handleAt ⟨.session, session⟩ s.world) username ret))) := rfl
    rw [hrun] at hcalls
    have hone := List.append_cancel_left ((traceOf_append _ _).symm.trans hcalls)
    rw [← hone, traceOf_singleton, List.mem_singleton] at hx
    exact ⟨_, hx⟩
  · have hnil : callsOf s (.through (.getSupportedAuthList session username ret)) = [] :=
      List.self_eq_append_right.mp hcalls
    simp [hnil] at hx

theorem Clean.step (h : Clean s) (ha : Answered s o) : Clean (s.objectStep o) := by
  by_cases hlist : ∃ session username ret, o = .through (.getSupportedAuthList session username ret)
  · obtain ⟨session, username, ret, rfl⟩ := hlist
    have hone := callsOf_getSupportedAuthList (s := s) session username ret
    refine h.step_of ?_ fun needle hx => ?_
    · rintro ⟨lib, hx⟩
      obtain ⟨_, hx⟩ := hone _ hx
      exact nomatch hx
    · obtain ⟨_, hx⟩ := hone _ hx
      exact nomatch hx
  · have hall : ∀ x ∈ callsOf s o, NullAnswer x = false := by
      unfold Answered at ha
      split at ha
      · exact absurd ⟨_, _, _, rfl⟩ hlist
      · exact ha
    exact h.step_of (not_nullSession hall) fun _ _ => not_nullList hall

theorem Clean.run (h : Clean s) {os : List ObjectOperation} (ha : AllAnswered s os) :
    Clean (s.objectRun os) := by
  induction os generalizing s with
  | nil => exact h
  | cons o os ih => exact ih (h.step ha.1) ha.2

theorem clean_initial : Clean State.initial := ⟨sound_start, nofun, nofun⟩

/-- In every run in which the library answers with more than NULL, no null handle is used. -/
theorem no_null_used (os : List ObjectOperation) (ha : AllAnswered State.initial os) :
    ∀ x ∈ (State.initial.objectRun os).trace, ¬ UsesNull x :=
  (clean_initial.run ha).unused

theorem no_null_used_connection :
    let tr := (State.initial.objectRun [.through (.connect ⟨some [], 22, [], []⟩
      ⟨⟨true, fun _ => 0, 0⟩, 0, true, 0, some (bytes "password"), false, 0, true, 0, 0⟩),
      .through (.dropHandle ⟨.ssh, 0⟩)]).trace
    tr ≠ [] ∧ ∀ x ∈ tr, ¬ UsesNull x := by
  refine ⟨by decide, no_null_used _ ⟨?_, ?_, trivial⟩⟩
  · change ∀ x ∈ callsOf _ _, NullAnswer x = false
    decide
  · change ∀ x ∈ callsOf _ _, NullAnswer x = false
    decide

/-- A server that accepts the user without authentication has no list of methods. -/
theorem null_list_searched :
    ¬ ∀ x ∈ (State.initial.objectRun [.through (.connect ⟨some [], 22, [], []⟩
      ⟨⟨true, fun _ => 0, 0⟩, 0, true, 0, none, false, 0, true, 0, 0⟩)]).trace, ¬ UsesNull x := by
  intro h
  exact h (.strstr none (bytes "password")) (by decide) (.inr ⟨_, rfl⟩)

end CloudSsh.NullHandles
