import CloudSsh.CallByCall
import CloudSsh.RelayLoop
import CloudSsh.ResumableCalls

/-!
# Handshake, login and shell in non-blocking mode

The three operations end in the same way whether a call failed or would have blocked, so
that no caller can go on where they stopped. A caller who knew would still request a
terminal again each time the shell request was put off.
-/
namespace CloudSsh.WouldBlock
open CountedHeap ScopedPrograms RecordedPrograms LibraryCalls WrapperObjects WrapperClasses
open CallByCall ResumableCalls
open RelayLoop (libssh2ErrorEagain)

/-- The requests that the operations make. -/
inductive Request where
  | handshake | password | pty | shell
  deriving DecidableEq

/-- The request that a call makes, with its answer. -/
def requestOf : Call → Option (Request × Int)
  | .sessionHandshake _ _ ret => some (.handshake, ret)
  | .userauthPassword _ _ _ ret => some (.password, ret)
  | .channel (.requestPty _) _ ret | .channel (.requestPtyEx _ _ _ _ _ _) _ ret => some (.pty, ret)
  | .channel .shell _ ret => some (.shell, ret)
  | _ => none

def requests (tr : Trace) : List (Request × Int) := tr.filterMap requestOf

/-- A method as an operation: what it makes of the answers to its requests. -/
def operation {α : Type} (method : (Request → Int) → M α) :
    Operation Request Int World (Except Exn α) where
  run a := method a
  calls a w := requests (callsBy (method a) w)

theorem eagain_ne_zero : libssh2ErrorEagain ≠ 0 := by decide

/-- The operation resumes in non-blocking mode. -/
abbrev ResumesHere {α : Type} (method : (Request → Int) → M α)
    (S : Schedule Request libssh2ErrorEagain) (w : World) : Prop :=
  Resumes (operation method) 0 S w

def handshake (session sock : ℕ) (a : Request → Int) : M Bool :=
  Session.handshake session sock (a .handshake)

def passwordAuth (session : ℕ) (username password : Bytes) (a : Request → Int) : M Bool :=
  Session.passwordAuth session username password (a .password)

def shell (channel : ℕ) (term : Bytes) (a : Request → Int) : M Unit :=
  Channel.shell channel (a .pty) (a .shell) term

def shellEx (channel : ℕ) (term modes : Bytes) (widthChar heightChar widthPx heightPx : Int)
    (a : Request → Int) : M Unit :=
  Channel.shellEx channel term modes widthChar heightChar widthPx heightPx (a .pty) (a .shell)

/-! ## The requests of one attempt -/

theorem requests_append (a b : Trace) : requests (a ++ b) = requests a ++ requests b :=
  List.filterMap_append

theorem requests_destructor (o : Wrapper) : requests o.destructor = [] := by cases o <;> rfl

/-- Releasing objects requests nothing. -/
theorem requests_release (pending : List Addr) (h : Objects) :
    requests (traceOf (release layout pending h).2) = [] := by
  refine release_induction (L := layout) (P := fun _ _ log => requests (traceOf log) = [])
    (fun a pending h log hlog => ?_) pending h [] rfl
  have hdrop : requests (traceOf (dropOne layout a h).calls) = [] := by
    cases hc : cellAt h a with
    | none => rw [dropOne_dangling hc]; rfl
    | some c =>
      by_cases h1 : c.count ≤ 1
      · rw [dropOne_last hc h1]
        simpa [traceOf, layout] using requests_destructor c.obj
      · rw [dropOne_shared hc h1]; rfl
  rw [traceOf, List.map_append]
  refine (requests_append _ _).trans ?_
  rw [show requests (log.map Prod.snd) = [] from hlog]
  exact hdrop

theorem assign_requests (a : Addr) (o : Wrapper) (old : Option Addr) (m : Memory) :
    ∃ calls m', Runs recorder (assign a o old) m (.ok ()) calls m' ∧ requests calls = [] := by
  have hset : Runs recorder (update (World.onStore (Store.overwrite a o)) : M Unit) m (.ok ()) []
      { m with heap := setObj a o m.heap } := Runs.update (overwrite_changes a o)
  cases old with
  | none => exact ⟨_, _, hset.bind (Runs.pure ()), rfl⟩
  | some b => exact ⟨_, _, hset.bind (drop_runs ⟨rfl, rfl⟩), requests_release _ _⟩

/-- A session object is there to shake hands. -/
def IsSession (session : ℕ) (w : World) : Prop :=
  ∃ h lib old, objectAt ⟨.session, session⟩ w = some (.session h lib old)

/-- The handshake makes one request, whatever becomes of the sockets around it. -/
theorem handshake_requests {session : ℕ} {w : World} (hs : IsSession session w) (sock : ℕ)
    (a : Request → Int) : (handshake session sock a w).1 = .ok (decide (a .handshake = 0)) ∧
      requests (callsBy (handshake session sock a) w) = attempt 0 a [.handshake] := by
  obtain ⟨h, lib, old, hobj⟩ := hs
  have hview := objectAt_runs (m := { recorder.core w with
    heap := retain ⟨.socket, sock⟩ w.heap }) ⟨.session, session⟩
  have hcell : (cellAt (retain ⟨.socket, sock⟩ w.heap) ⟨.session, session⟩).map Cell.obj =
      some (.session h lib old) := by
    rw [cellAt_retain_of_ne (by simp)]
    exact hobj
  rw [hcell] at hview
  obtain ⟨calls, m', hassign, hnone⟩ := assign_requests ⟨.session, session⟩
    (.session h lib (some sock)) (old.map (Addr.mk .socket))
    { recorder.core w with heap := retain ⟨.socket, sock⟩ (retain ⟨.socket, sock⟩ w.heap) }
  have hrun : ∃ calls m', Runs recorder (handshake session sock a) (recorder.core w)
      (.ok (decide (a .handshake = 0))) calls m' ∧
        requests calls = attempt 0 a [.handshake] := by
    refine ⟨_, _, withCopy_runs _ (hview.bind ((share_runs _).bind (hassign.bind
      ((handleAt_runs _).bind ((issue_runs _).bind (Runs.pure _)))))) ⟨rfl, rfl⟩, ?_⟩
    simp only [requests_append, hnone, requests_release, List.nil_append, List.append_nil,
      attempt_singleton]
    rfl
  obtain ⟨calls, m'', hrun, hcalls⟩ := hrun
  obtain ⟨hres, hcallsBy⟩ := callsBy_of_runs hrun
  exact ⟨hres, hcallsBy ▸ hcalls⟩

theorem passwordAuth_requests (session : ℕ) (username password : Bytes) (a : Request → Int)
    (w : World) :
    (passwordAuth session username password a w).1 = .ok (decide (a .password = 0)) ∧
      requests (callsBy (passwordAuth session username password a) w) =
        attempt 0 a [.password] := by
  have hrun : Runs recorder (passwordAuth session username password a) (recorder.core w)
      (.ok (decide (a .password = 0))) _ _ :=
    (handleAt_runs _).bind ((issue_runs _).bind (Runs.pure _))
  obtain ⟨hres, hcalls⟩ := callsBy_of_runs hrun
  refine ⟨hres, ?_⟩
  rw [hcalls, attempt_singleton]
  rfl

/-- How a `shell` ends. -/
def shellEnd (pty shell : Int) : Except Exn Unit :=
  if pty ≠ 0 then .error (.runtimeError "Failed requesting pty\n")
  else if shell ≠ 0 then .error (.runtimeError "Unable to request shell on allocated pty\n")
  else .ok ()

theorem callOn_runs (f : ChannelFunction) (channel : ℕ) (ret : Int) (m : Memory) :
    ∃ handle, Runs recorder (Channel.callOn f channel ret) m (.ok ret)
      [.channel f handle ret] m :=
  ⟨_, (handleAt_runs _).bind ((issue_runs _).bind (Runs.pure ret))⟩

variable (terminal : ChannelFunction)

/-- Both `shell`s: the shell is requested behind a terminal that was granted. -/
theorem shellOn_runs (ht : ∀ h ret, requestOf (.channel terminal h ret) = some (.pty, ret))
    (channel : ℕ) (a : Request → Int) (m : Memory) :
    ∃ calls, Runs recorder (Channel.shellOn terminal channel (a .pty) (a .shell)) m
        (shellEnd (a .pty) (a .shell)) calls m ∧ requests calls = attempt 0 a [.pty, .shell] := by
  obtain ⟨h, hpty⟩ := callOn_runs terminal channel (a .pty) m
  obtain ⟨h', hshell⟩ := callOn_runs .shell channel (a .shell) m
  have hcalls : ∀ calls, requests (.channel terminal h (a .pty) :: calls) =
      (.pty, a .pty) :: requests calls := fun calls => List.filterMap_cons_some (ht h _)
  unfold shellEnd
  by_cases hp : a .pty ≠ 0
  · rw [if_pos hp, attempt, if_neg hp]
    exact ⟨_, hpty.bind (Runs.bind_error (Runs.raiseIf_true _ hp) _), hcalls _⟩
  · rw [if_neg hp, attempt, if_pos (not_not.1 hp), attempt_singleton]
    have hgranted := Runs.raiseIf_false (R := recorder) (m := m)
      (Exn.runtimeError "Failed requesting pty\n") hp
    by_cases hs : a .shell ≠ 0
    · rw [if_pos hs]
      exact ⟨_, hpty.bind (hgranted.bind (hshell.bind (Runs.raiseIf_true _ hs))), hcalls _⟩
    · rw [if_neg hs]
      exact ⟨_, hpty.bind (hgranted.bind (hshell.bind (Runs.raiseIf_false _ hs))), hcalls _⟩

theorem shellOn_requests (ht : ∀ h ret, requestOf (.channel terminal h ret) = some (.pty, ret))
    (channel : ℕ) (a : Request → Int) (w : World) :
    (Channel.shellOn terminal channel (a .pty) (a .shell) w).1 = shellEnd (a .pty) (a .shell) ∧
      requests (callsBy (Channel.shellOn terminal channel (a .pty) (a .shell)) w) =
        attempt 0 a [.pty, .shell] := by
  obtain ⟨calls, hrun, hcalls⟩ := shellOn_runs terminal ht channel a (recorder.core w)
  obtain ⟨hres, hby⟩ := callsBy_of_runs hrun
  exact ⟨hres, hby ▸ hcalls⟩

/-! ## When the operations can be resumed -/

variable {S : Schedule Request libssh2ErrorEagain} {w : World}

/-- A `bool` says whether the answer was zero. -/
theorem bool_resumes_iff {method : (Request → Int) → M Bool} {k : Request}
    (h : ∀ a, (method a w).1 = .ok (decide (a k = 0)) ∧
      requests (callsBy (method a) w) = attempt 0 a [k]) :
    ResumesHere method S w ↔ (S k 0).delay = 0 := by
  have hmerge : Merges (operation method) 0 w := by
    intro a b hab
    rw [show (operation method).calls a w = attempt 0 a [k] from (h a).2,
      show (operation method).calls b w = attempt 0 b [k] from (h b).2] at hab
    have hk : decide (a k = 0) = decide (b k = 0) := by simpa [verdicts] using hab
    exact (h a).1.trans (hk ▸ (h b).1.symm)
  rw [ResumesHere, resumes_iff_undelayed eagain_ne_zero (by decide : (-1 : Int) ≠ 0)
    (by decide) hmerge fun a => (h a).2]
  simp

/-- The exceptions tell which request failed, and not how. -/
theorem shellEnd_congr {a b : Request → Int}
    (h : verdicts 0 (attempt 0 a [.pty, .shell]) = verdicts 0 (attempt 0 b [.pty, .shell])) :
    shellEnd (a .pty) (a .shell) = shellEnd (b .pty) (b .shell) := by
  unfold shellEnd
  by_cases ha : a .pty = 0 <;> by_cases hb : b .pty = 0 <;> simp_all [verdicts, attempt]

theorem shellOn_resumes_iff
    (ht : ∀ h ret, requestOf (.channel terminal h ret) = some (.pty, ret)) (channel : ℕ) :
    ResumesHere (fun a => Channel.shellOn terminal channel (a .pty) (a .shell)) S w ↔
      (S .pty 0).delay = 0 ∧ ((S .pty 0).code = 0 → (S .shell 0).delay = 0) := by
  have h := fun a => shellOn_requests terminal ht channel a w
  have hmerge : Merges (operation fun a => Channel.shellOn terminal channel (a .pty) (a .shell))
      0 w := by
    intro a b hab
    refine (h a).1.trans ((shellEnd_congr ?_).trans (h b).1.symm)
    rw [← (h a).2, ← (h b).2]
    exact hab
  rw [ResumesHere, resumes_iff_undelayed eagain_ne_zero (by decide : (-1 : Int) ≠ 0)
    (by decide) hmerge fun a => (h a).2]
  rw [attempt, attempt_singleton]
  by_cases hp : (S .pty 0).code = 0 <;> simp [Schedule.finals, hp]

/-- Handshake, login and shell resume where no request that they come to is put off. -/
theorem resumes_iff (S : Schedule Request libssh2ErrorEagain) {w : World} {session : ℕ}
    (hs : IsSession session w) (sock channel : ℕ) (username password term modes : Bytes)
    (widthChar heightChar widthPx heightPx : Int) :
    (ResumesHere (handshake session sock) S w ↔ (S .handshake 0).delay = 0) ∧
      (ResumesHere (passwordAuth session username password) S w ↔ (S .password 0).delay = 0) ∧
      (ResumesHere (shell channel term) S w ↔
        (S .pty 0).delay = 0 ∧ ((S .pty 0).code = 0 → (S .shell 0).delay = 0)) ∧
      (ResumesHere (shellEx channel term modes widthChar heightChar widthPx heightPx) S w ↔
        (S .pty 0).delay = 0 ∧ ((S .pty 0).code = 0 → (S .shell 0).delay = 0)) :=
  ⟨bool_resumes_iff (handshake_requests hs sock),
    bool_resumes_iff fun a => passwordAuth_requests session username password a w,
    shellOn_resumes_iff (.requestPty term) (fun _ _ => rfl) channel,
    shellOn_resumes_iff (.requestPtyEx term modes widthChar heightChar widthPx heightPx)
      (fun _ _ => rfl) channel⟩

/-- A session that no socket has been given yet. -/
def newSession : World :=
  { heap := [⟨⟨.session, 0⟩, 1, .session (some 0) 0 none⟩], log := [], nextHandle := 1
    nextObject := 1, ptr := none }

/-- Every request but the terminal is put off once, and then granted. -/
def putOffOnce : Schedule Request libssh2ErrorEagain
  | .pty, _ => ⟨0, 0, eagain_ne_zero.symm⟩
  | _, i => ⟨if i = 0 then 1 else 0, 0, eagain_ne_zero.symm⟩

theorem resumes_iff_newSession :
    (ResumesHere (handshake 0 0) putOffOnce newSession ↔
        (putOffOnce .handshake 0).delay = 0) ∧
      (ResumesHere (passwordAuth 0 (bytes "user") (bytes "secret")) putOffOnce newSession ↔
        (putOffOnce .password 0).delay = 0) ∧
      (ResumesHere (shell 0 (bytes "xterm")) putOffOnce newSession ↔
        (putOffOnce .pty 0).delay = 0 ∧
          ((putOffOnce .pty 0).code = 0 → (putOffOnce .shell 0).delay = 0)) ∧
      (ResumesHere (shellEx 0 (bytes "xterm") (bytes "") 80 24 0 0) putOffOnce newSession ↔
        (putOffOnce .pty 0).delay = 0 ∧
          ((putOffOnce .pty 0).code = 0 → (putOffOnce .shell 0).delay = 0)) :=
  resumes_iff putOffOnce ⟨some 0, 0, none, rfl⟩ 0 0 (bytes "user") (bytes "secret")
    (bytes "xterm") (bytes "") 80 24 0 0

/-- Put off once, a handshake, a login and a shell are not resumed. -/
theorem put_off_not_resumed :
    ¬ ResumesHere (handshake 0 0) putOffOnce newSession ∧
      ¬ ResumesHere (passwordAuth 0 (bytes "user") (bytes "secret")) putOffOnce newSession ∧
      ¬ ResumesHere (shell 0 (bytes "xterm")) putOffOnce newSession := by
  refine ⟨?_, ?_, ?_⟩
  · rw [bool_resumes_iff (handshake_requests ⟨some 0, 0, none, rfl⟩ 0)]
    decide
  · rw [bool_resumes_iff fun a => passwordAuth_requests 0 _ _ a newSession]
    decide
  · intro h
    have hdelays := (shellOn_resumes_iff (.requestPty (bytes "xterm")) (fun _ _ => rfl) 0).1 h
    exact absurd (hdelays.2 rfl) (by decide)

/-- A caller told of the delays gets another terminal for each time that the shell is put off. -/
theorem shell_repeats (channel : ℕ) (term : Bytes) (hpty : ∀ i, (S .pty i).delay = 0 ∧
    (S .pty i).code = 0) :
    ∃ r, retry (operation (shell channel term)) (fun _ calls => putOff libssh2ErrorEagain calls)
        ((S .shell 0).delay + 1) S w =
      some (r, List.replicate ((S .shell 0).delay + 1) (.pty, 0) ++
        [(.shell, (S .shell 0).code)]) :=
  retry_repeats eagain_ne_zero (by decide)
    (fun a w => (shellOn_requests (.requestPty term) (fun _ _ => rfl) channel a w).2)
    hpty

end CloudSsh.WouldBlock
