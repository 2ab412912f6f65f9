import CloudSsh.FailedAttempts

/-!
# The old and the new connection code

`connect_to_ssh` and the constructor of `SSH` make the same calls, succeed together and
leave the same resources.
-/
namespace CloudSsh.OldConnection
open CountedHeap ResourceTraces Calls RecordedPrograms LibraryCalls WrapperObjects WrapperClasses
open PublicOperations OperationSteps CallByCall ConnectionAttempts AttemptOutcomes FailedAttempts

variable {account : Account} {r : Answers} {t : Handles} {s : State}

theorem connectToSsh_trace (hs : Ready (recorder.core s.world)) (account : Account) (r : Answers) :
    (s.step (.connectToSsh account r)).trace = s.trace ++ (callsFrom s account r).1 := by
  obtain ⟨res, m', hrun, -⟩ := connectToSsh_runs hs account r
  have hprogram : ∃ res', Runs recorder (Operation.connectToSsh account r).program
      (recorder.core s.world) res' (callsFrom s account r).1 m' := by
    cases res with
    | ok c => exact ⟨_, (hrun.bind (Runs.pure (c.map (Addr.mk .channel)).toList)).congr
        (List.append_nil _) rfl⟩
    | error e => exact ⟨_, hrun.bind_error _⟩
  obtain ⟨res', hrun'⟩ := hprogram
  exact step_trace rfl rfl hrun'

/-- `connect_to_ssh` returns a channel. -/
def Connected (s : State) (account : Account) (r : Answers) : Prop :=
  ∃ c, (connectToSsh account r s.world).1 = .ok (some c)

theorem connected_iff (hs : Ready (recorder.core s.world)) (account : Account) (r : Answers) :
    Connected s account r ↔ (callsFrom s account r).2 = true := by
  obtain ⟨res, m', hrun, hiff⟩ := connectToSsh_runs hs account r
  rw [Connected, (hrun s.world rfl).1]
  exact hiff.symm

/-- The constructor completes, and its object holds a channel. -/
def Constructed (s : State) (account : Account) (r : Answers) : Prop :=
  ∃ n c, (SSH.construct account r s.world).1 = .ok n ∧
    objectAt ⟨.ssh, n⟩ (SSH.construct account r s.world).2 = some (.ssh (some c))

theorem constructed_iff (hs : Ready (recorder.core s.world)) (account : Account) (r : Answers) :
    Constructed s account r ↔ (callsFrom s account r).2 = true := by
  obtain ⟨res, m', hrun, hok, herr⟩ := construct_runs hs account r
  obtain ⟨hres, hcore, -⟩ := hrun s.world rfl
  constructor
  · rintro ⟨n, c, hn, -⟩
    by_contra hc
    obtain ⟨e, rfl⟩ := herr (Bool.not_eq_true _ ▸ hc)
    exact nomatch hres.symm.trans hn
  · intro hc
    obtain ⟨rfl, t, h, hopen⟩ := hok hc
    refine ⟨_, t.first + 2, hres, ?_⟩
    have hheap : (SSH.construct account r s.world).2.heap = openedHeap t h :=
      (congrArg Memory.heap hcore).trans hopen.heap
    rw [objectAt, hheap, cellAt_opened, hopen.ssh]
    rfl

/-! ## What a connection holds -/

theorem loginCalls_ok (account : Account) (hl : (loginCalls account r t).2 = true) :
    (loginCalls account r t).1 = [.sessionHandshake t.session (some t.fd) r.handshake,
      .userauthList t.session account.username r.authList, .strstr r.authList (bytes "password"),
      .userauthPassword t.session account.username account.password r.password] := by
  obtain ⟨hhandshake, hoffered, -⟩ := loginCalls_snd.mp hl
  simp [loginCalls, hhandshake, hoffered]

theorem attemptCalls_ok (account : Account) (ha : (attemptCalls account r t).2 = true) :
    ∃ before after, (attemptCalls account r t).1 =
        before ++ .sessionHandshake t.session (some t.fd) r.handshake :: after ∧
      .channelOpenSession t.session (some t.channel) ∈ after ∧
      ∀ x ∈ after, ∀ a b, effect x ≠ .give a b := by
  obtain ⟨hs, hr, -⟩ := attemptCalls_snd.mp ha
  rcases sessionCalls_cases account r t with
    ⟨-, hcalls⟩ | ⟨hl, ⟨-, hcalls⟩ | ⟨-, ⟨-, hcalls⟩ | ⟨-, hcalls⟩⟩⟩ <;>
    simp [attemptCalls, hs, hr, hcalls] at ha
  refine ⟨.socket 2 1 0 (some t.fd) :: connectCall account r t.fd ++
      [.sessionInit (some t.lib) t.session],
    [.userauthList t.session account.username r.authList, .strstr r.authList (bytes "password"),
      .userauthPassword t.session account.username account.password r.password,
      .channelOpenSession t.session (some t.channel)] ++ (shellCalls r t).1, ?_, by simp, ?_⟩
  · simp [attemptCalls, hs, hr, hcalls, loginCalls_ok account hl]
  · have hshell : ∀ x ∈ (shellCalls r t).1, ∀ a b, effect x ≠ .give a b := by
      unfold shellCalls
      split <;> simp [effect_eq, Call.effect]
    exact List.forall_mem_append.mpr ⟨by simp [effect_eq, Call.effect], hshell⟩

/-- A connection holds a channel, the session it was opened on, and the descriptor that the session
works on. -/
structure Holds (tr : Trace) (held : Multiset Resource) : Prop where
  held : ∃ channel session fd, held = {.channel channel, .session session, .descriptor fd} ∧
    StandsOn tr (.channel channel) (.session session) ∧
    LastGiven tr (.session session) (.descriptor fd)

theorem connectionCalls_ok {lib : Option ℕ} {n : ℕ}
    (hc : (connectionCalls lib n account r).2 = true) :
    ∃ before, (connectionCalls lib n account r).1 =
        before ++ (attemptCalls account r (attemptHandles lib n r)).1 ∧
      (attemptCalls account r (attemptHandles lib n r)).2 = true := by
  cases lib with
  | some lib => exact ⟨[], rfl, hc⟩
  | none =>
    by_cases hi : r.init = 0
    · simp only [connectionCalls, hi, if_true] at hc
      exact ⟨[.init r.init (some n)], by simp [connectionCalls, attemptHandles, hi], hc⟩
    · simp [connectionCalls, hi] at hc

theorem attemptHandles_session (hs : r.sessionInit = true) (lib : Option ℕ) (n : ℕ) :
    ∃ session, (attemptHandles lib n r).session = some session := by
  cases lib <;> simp [attemptHandles, handlesFrom, hs]

theorem connection_ok {lib : Option ℕ} {n : ℕ} (hc : (connectionCalls lib n account r).2 = true)
    (hs : r.sessionInit = true) (tr : Trace) :
    ∃ held, Holds (tr ++ (connectionCalls lib n account r).1) held ∧
      outstanding (tr ++ (connectionCalls lib n account r).1) =
        held + (created lib n r + outstanding tr) := by
  obtain ⟨session, hsession⟩ := attemptHandles_session hs lib n
  obtain ⟨pre, hpre, hok⟩ := connectionCalls_ok hc
  obtain ⟨before, after, hcalls, hopen, hgive⟩ := attemptCalls_ok account hok
  have htrace : tr ++ (connectionCalls lib n account r).1 = (tr ++ pre ++ before) ++
      .sessionHandshake (some session) (some (attemptHandles lib n r).fd) r.handshake :: after := by
    simp [hpre, hcalls, hsession]
  refine ⟨_, ⟨(attemptHandles lib n r).channel, session, (attemptHandles lib n r).fd, rfl, ?_, ?_⟩,
    ?_⟩
  · rw [htrace]
    refine ⟨_, List.mem_append_right _ (List.mem_cons_of_mem _ hopen), ?_⟩
    rw [hsession]
    rfl
  · exact ⟨_, _, after, htrace, rfl, fun x hx r' => hgive x hx _ r'⟩
  · rw [outstanding, tallyAll_append]
    change tallyAll (outstanding tr) _ = _
    rw [tally_connection, if_pos hc]
    simp [sessionHoldings, hsession]

/-- From every state that a run reaches, the old and the new code make the same calls and succeed
together; a connection then holds a channel with its session and descriptor, and the library. -/
theorem old_new_agree (os : List Operation) (account : Account) (r : Answers) :
    ((State.initial.run os).step (.connect account r)).trace =
        ((State.initial.run os).step (.connectToSsh account r)).trace ∧
      (Constructed (State.initial.run os) account r ↔ Connected (State.initial.run os) account r) ∧
      ((∃ n, (SSH.construct account r (State.initial.run os).world).1 = .ok n) →
        Constructed (State.initial.run os) account r) ∧
      (Connected (State.initial.run os) account r → r.sessionInit = true →
        ∃ held, Holds ((State.initial.run os).step (.connect account r)).trace held ∧
          outstanding ((State.initial.run os).step (.connect account r)).trace =
            held + (kept (State.initial.run os) r + outstanding (State.initial.run os).trace)) := by
  have hs := ready_run os
  refine ⟨?_, ?_, fun ⟨n, hn⟩ => ?_, fun hc hinit => ?_⟩
  · rw [connect_trace hs, connectToSsh_trace hs]
  · rw [constructed_iff hs, connected_iff hs]
  · rw [constructed_iff hs]
    by_contra hc
    obtain ⟨e, he⟩ := (failed_iff hs account r).mpr (Bool.not_eq_true _ ▸ hc)
    exact nomatch hn.symm.trans he
  · have hkept : created (libraryOf (recorder.core (State.initial.run os).world))
        (State.initial.run os).world.nextHandle r = kept (State.initial.run os) r := by
      simp [created, kept, libraryOf_eq_none hs]
    rw [connect_trace hs, ← hkept]
    exact connection_ok ((connected_iff hs account r).mp hc) hinit _

theorem old_new_agree_fresh :
    let r : Answers :=
      ⟨⟨true, fun _ => 0, 0⟩, 0, true, 0, some (bytes "password"), false, 0, true, 0, 0⟩
    let tr := (State.initial.step (.connect ⟨some [], 22, [], []⟩ r)).trace
    ∃ held, Holds tr held ∧
      outstanding tr = held + (kept State.initial r + outstanding State.initial.trace) :=
  (old_new_agree [] _ _).2.2.2 ⟨3, rfl⟩ rfl

end CloudSsh.OldConnection
