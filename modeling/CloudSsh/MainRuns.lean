import CloudSsh.BlockingModes
import CloudSsh.MainOutcomes

/-!
# Whole runs of `main`

The relay loop knows what is asked of the channel, and the objects know what stands behind it.
Together they give every library call of a run of `main`: those of the connection, those that
the loop has logged, and those of the destructors.
-/
namespace CloudSsh.MainRuns
open EnvironmentPrograms CountedHeap ResourceTraces LibraryCalls WrapperObjects WrapperClasses
open PublicOperations CallByCall ConnectionAttempts AttemptOutcomes FailedAttempts OldConnection
open BlockingModes MainOutcomes
open RelayLoop (System Entry relayLoop relayMain loopBody readRemote sendInput readRemote_cases
  sendInput_cases loopTest_apply relayMain_of_ended relayMain_of_running)

variable {σ : Type}

/-! ## The calls that the loop makes on the channel -/

/-- The method of the channel behind an entry, with its answer. -/
def methodOf : Entry σ → Option (ChannelMethod × Int)
  | (_, .clearBlocking) => some (.clearBlocking, 0)
  | (_, .isEof ret) => some (.isEof, ret)
  | (_, .read offered ret _) => some (.read offered, ret)
  | (_, .write c ret) => some (.writeChar c, ret)
  | _ => none

def methods (log : List (Entry σ)) : List (ChannelMethod × Int) := log.filterMap methodOf

/-- The library calls behind a log, when the channel's handle is `handle`. -/
def callsOn (handle : Option ℕ) (log : List (Entry σ)) : Trace :=
  (methods log).map fun m => .channel m.1.function handle m.2

@[simp] theorem methods_nil : methods ([] : List (Entry σ)) = [] := rfl

@[simp] theorem methods_cons (e : Entry σ) (log : List (Entry σ)) :
    methods (e :: log) = (methodOf e).toList ++ methods log := by
  cases h : methodOf e <;> simp [methods, h]

@[simp] theorem methods_append (log log' : List (Entry σ)) :
    methods (log ++ log') = methods log ++ methods log' := List.filterMap_append

theorem readRemote_methods (sys : System σ) (s : σ) :
    ∃ ret, methods (readRemote sys s).log = [(.read 65536, ret)] := by
  rcases readRemote_cases sys s with ⟨bytes, _, _, s₁, -, h⟩ | ⟨code, _, s₁, -, h⟩
  · exact ⟨bytes.length, by simp [h, methodOf, RelayLoop.obufSize]⟩
  · refine ⟨code, ?_⟩
    rw [h]
    split <;> simp [methodOf, RelayLoop.obufSize]

theorem sendInput_methods (sys : System σ) (s : σ) :
    ∃ typed : Option (UInt8 × Int), methods (sendInput sys s).log =
      (typed.map fun t => (ChannelMethod.writeChar t.1, t.2)).toList := by
  rcases sendInput_cases sys s with ⟨s₁, -, h⟩ | ⟨_, s₁, key, s₂, -, -, -, -, h⟩ |
    ⟨_, s₁, c, s₂, st, s₃, -, -, -, -, -, h⟩
  · exact ⟨none, by simp [h, methodOf]⟩
  · exact ⟨none, by simp [h, methodOf]⟩
  · refine ⟨some (c, st.1), ?_⟩
    rw [h]
    split <;> simp [methodOf]

theorem loopBody_methods (sys : System σ) (s : σ) :
    ∃ p : Pass, methods (loopBody sys s).log = bodyMethods p := by
  obtain ⟨ret, hread⟩ := readRemote_methods sys s
  obtain ⟨typed, hsend⟩ := sendInput_methods sys (readRemote sys s).env
  refine ⟨⟨ret, typed⟩, ?_⟩
  simp [loopBody, hread, hsend, methodOf, bodyMethods]

/-- A loop that has ended asked the channel for one pass after the other, and left in the
end-of-file test behind them. -/
theorem relayLoop_methods (sys : System σ) (k : ℕ) (s : σ) (h : (relayLoop sys k s).value = true) :
    ∃ passes eof, eof ≠ 0 ∧ methods (relayLoop sys k s).log = loopMethods passes eof := by
  induction k generalizing s with
  | zero => cases h
  | succ k ih =>
    cases htest : (sys.isEof s).1 == 0 with
    | false =>
      have hstop : relayLoop sys (k + 1) s =
        ⟨true, (sys.isEof s).2, [(s, .isEof (sys.isEof s).1)]⟩ :=
        whileLoop_stop (by rw [loopTest_apply, htest]) k
      refine ⟨[], (sys.isEof s).1, by simpa using htest, ?_⟩
      simp [hstop, methodOf, loopMethods]
    | true =>
      have hmore := @whileLoop_more _ _ (RelayLoop.loopTest sys) (loopBody sys) _
        (by rw [loopTest_apply, htest]) k
      have hvalue := h
      rw [relayLoop, hmore] at hvalue
      obtain ⟨passes, eof, heof, hrest⟩ := ih _ hvalue
      obtain ⟨p, hbody⟩ := loopBody_methods sys (sys.isEof s).2
      have hzero : (sys.isEof s).1 = 0 := by simpa using htest
      refine ⟨p :: passes, eof, heof, ?_⟩
      rw [relayLoop, hmore]
      rw [relayLoop] at hrest
      simp [hrest, hbody, hzero, methodOf, loopMethods]

theorem relayMain_methods (sys : System σ) (k : ℕ) (s : σ) {status : Int}
    (h : (relayMain sys k s).value = some status) :
    status = 0 ∧ ∃ passes eof, eof ≠ 0 ∧
      methods (relayMain sys k s).log = (.clearBlocking, 0) :: loopMethods passes eof := by
  cases hloop : (relayLoop sys k s).value with
  | false =>
    rw [relayMain_of_running hloop] at h
    cases h
  | true =>
    rw [relayMain_of_ended hloop] at h ⊢
    obtain ⟨passes, eof, heof, hmethods⟩ := relayLoop_methods sys k s hloop
    refine ⟨(Option.some.inj h).symm, passes, eof, heof, ?_⟩
    simp [hmethods, methodOf]

/-! ## From the connection to the last destructor -/

variable {r : Answers} {n c : ℕ} {t : Numbers} {h : Objects} {m : Memory}

theorem connectionCalls_made (hcalls : (connectionCalls none 0 mainAccount r).2 = true) :
    (connectionCalls none 0 mainAccount r).1 =
      .init 0 (some 0) :: (attemptCalls mainAccount r (handlesFrom 0 1 r)).1 := by
  obtain ⟨hinit, -⟩ := connectionCalls_snd.mp hcalls
  simp [connectionCalls, hinit]

/-- The first connection of the program is given the first handles. -/
theorem opened_handles (hcalls : (connectionCalls none 0 mainAccount r).2 = true)
    (ho : Opened n m r (connectionCalls none 0 mainAccount r).1 t h) :
    t.session = (handlesFrom 0 1 r).session ∧
      t.channel = (handlesFrom 0 1 r).channel ∧ t.fd = 1 := by
  have hmade := attemptCalls_made rfl (connectionCalls_snd.mp hcalls).2
  have hopens := ho.opens
  rw [connectionCalls_made hcalls, hmade] at hopens
  obtain ⟨hsession, hchannel⟩ : t.session = (handlesFrom 0 1 r).session ∧
      t.channel = (handlesFrom 0 1 r).channel := by simpa using hopens
  have hnext : t.channel = t.fd + 1 + if r.sessionInit then 1 else 0 :=
    congrArg Handles.channel ho.next
  simp only [handlesFrom] at hchannel
  exact ⟨hsession, hchannel, by omega⟩

/-- A run of `main` that reaches its loop and leaves it: its status is 0, and the operations on the
objects that stand for it make the calls of the connection, then exactly those that the loop has
logged, on the channel that was opened, and then give back channel, session and descriptor. -/
theorem main_calls (sys : System σ) (s : σ) (k : ℕ) (r : Answers) {c : ℕ} {status : Int}
    (hstart : (main r State.initial.world).1.ending = .relays c)
    (hended : (relayMain sys k s).value = some status) :
    status = 0 ∧ ∃ ssh passes eof, eof ≠ 0 ∧
      (State.initial.run (mainOperations mainAccount r passes eof ssh c)).trace =
        (connectionCalls none 0 mainAccount r).1 ++
          callsOn (some (handlesFrom 0 1 r).channel) (relayMain sys k s).log ++
          .channelFree (some (handlesFrom 0 1 r).channel) :: closingCalls (handlesFrom 0 1 r) := by
  obtain ⟨hstatus, passes, eof, heof, hmethods⟩ := relayMain_methods sys k s hended
  have hs := ready_run []
  rcases main_cases r with ⟨hcalls, -⟩ | ⟨-, e, hmain⟩
  · obtain ⟨n, c', hn, hc⟩ := (constructed_iff hs mainAccount r).mpr hcalls
    have hmain := (main_constructed (Prod.ext hn rfl) hc).1
    obtain rfl : c' = c := by simpa [hmain] using hstart
    obtain ⟨m, t, h, calls, hhas, ho, hw⟩ := connect_has (Prod.ext hn rfl)
    obtain ⟨rfl, -⟩ := opened_channel ho hw hc
    obtain rfl : calls = (connectionCalls none 0 mainAccount r).1 :=
      hhas.trace.symm.trans (connect_trace hs mainAccount r)
    obtain ⟨hsession, hchannel, hfd⟩ := opened_handles hcalls ho
    have hrun := has_main hhas ho ((.clearBlocking, 0) :: loopMethods passes eof)
    refine ⟨hstatus, n, passes, eof, heof, ?_⟩
    rw [mainOperations, passes_operations, callsOn, hmethods, ← hchannel]
    have hclosing : closingCalls t.toHandles = closingCalls (handlesFrom 0 1 r) := by
      simp [closingCalls, hsession, hfd, handlesFrom]
    rw [← hclosing]
    exact hrun
  · rw [hmain] at hstart
    cases hstart

/-- One pass, in which a key is typed, and the end of the channel. -/
theorem main_calls_typed :
    let r : Answers :=
      ⟨⟨true, fun _ => 0, 0⟩, 0, true, 0, some (bytes "password"), false, 0, true, 0, 0⟩
    let answers : List RelayLoop.Answers := [{ select := 1, getchar := some 97 }]
    (0 : Int) = 0 ∧ ∃ ssh passes eof, eof ≠ 0 ∧
      (State.initial.run (mainOperations mainAccount r passes eof ssh 4)).trace =
        (connectionCalls none 0 mainAccount r).1 ++
          callsOn (some (handlesFrom 0 1 r).channel) (relayMain RelayLoop.replay 2 answers).log ++
          .channelFree (some (handlesFrom 0 1 r).channel) :: closingCalls (handlesFrom 0 1 r) :=
  main_calls RelayLoop.replay _ 2 _ rfl rfl

end CloudSsh.MainRuns
