import CloudSsh.AttemptOutcomes
import CloudSsh.OperationSteps

/-!
# What a failed attempt leaves behind

An attempt gives back everything that it acquired, except when the connection is refused:
the constructor of `Socket` then throws before there is an object that would close the
descriptor.
-/
namespace CloudSsh.FailedAttempts
open CountedHeap ResourceTraces Calls RecordedPrograms LibraryCalls WrapperObjects WrapperClasses
open PublicOperations OwnershipSteps OperationSteps CallByCall ConnectionAttempts AttemptOutcomes

variable {account : Account} {r : Answers} {t : Handles} {m : Multiset Resource} {s : State}

/-! ## The books of an attempt -/

theorem tally_login (account : Account) (r : Answers) (t : Handles) :
    tallyAll m (loginCalls account r t).1 = m := by
  apply tallyAll_of_idle
  unfold loginCalls
  cases t.session <;> split <;> try split
  all_goals simp [tally, effect_eq, Call.effect]

theorem tally_shell (r : Answers) (t : Handles) : tallyAll m (shellCalls r t).1 = m := by
  apply tallyAll_of_idle
  unfold shellCalls
  split <;> simp [tally, effect_eq, Call.effect]

theorem tally_connectCall (account : Account) (r : Answers) (fd : ℕ) :
    tallyAll m (connectCall account r fd) = m := by
  apply tallyAll_of_idle
  unfold connectCall
  cases account.hostname <;> simp [tally, effect_eq, Call.effect]

/-- What an attempt holds when there is a session. -/
def sessionHoldings (t : Handles) : Multiset Resource :=
  match t.session with
  | some s => {.session s, .descriptor t.fd}
  | none => {.descriptor t.fd}

theorem tally_closing (m : Multiset Resource) (t : Handles) :
    tallyAll (sessionHoldings t + m) (closingCalls t) = m := by
  unfold sessionHoldings closingCalls
  cases t.session <;> simp [tally, effect_eq, Call.effect]

theorem tally_session (account : Account) (r : Answers) (t : Handles) :
    tallyAll (sessionHoldings t + m) (sessionCalls account r t).1 =
      if (sessionCalls account r t).2 then .channel t.channel ::ₘ (sessionHoldings t + m)
      else m := by
  have hopen : ∀ m : Multiset Resource,
    tally m (Call.channelOpenSession t.session (some t.channel)) =
    .channel t.channel ::ₘ m := fun _ => rfl
  have hfree : ∀ m : Multiset Resource, tally m (Call.channelFree (some t.channel)) =
    m.erase (.channel t.channel) := fun _ => rfl
  rcases sessionCalls_cases account r t with
    ⟨hl, hcalls⟩ | ⟨hl, ⟨hc, hcalls⟩ | ⟨hc, ⟨hs, hcalls⟩ | ⟨hs, hcalls⟩⟩⟩ <;> rw [hcalls]
  · simp [tally_login, tally_closing]
  · have hnone : ∀ m : Multiset Resource, tally m (Call.channelOpenSession t.session none) =
      m := fun _ => rfl
    simp [tally_login, tally_closing, hnone]
  · simp [tally_login, tally_closing, tally_shell, hopen, hfree]
  · simp [tally_login, tally_shell, hopen]

theorem tally_sessionInit (m : Multiset Resource) (t : Handles) :
    tally (.descriptor t.fd ::ₘ m) (Call.sessionInit (some t.lib) t.session) =
      sessionHoldings t + m := by
  unfold sessionHoldings
  cases t.session <;> simp [tally, effect_eq, Call.effect]

/-- The descriptor of a refused connection. -/
def leaked (account : Account) (r : Answers) (fd : ℕ) : Multiset Resource :=
  if r.socket = true ∧ Refused account r then {.descriptor fd} else 0

theorem tally_attempt (account : Account) (r : Answers) (t : Handles) :
    tallyAll m (attemptCalls account r t).1 =
      if (attemptCalls account r t).2 then .channel t.channel ::ₘ (sessionHoldings t + m)
      else leaked account r t.fd + m := by
  have hsocket : ∀ m : Multiset Resource, tally m (Call.socket 2 1 0 (some t.fd)) =
    .descriptor t.fd ::ₘ m := fun _ => rfl
  cases hs : r.socket with
  | false =>
    have hnone : ∀ m : Multiset Resource, tally m (Call.socket 2 1 0 none) = m := fun _ => rfl
    simp [attemptCalls, leaked, hs, hnone]
  | true =>
    by_cases hr : Refused account r
    · simp [attemptCalls, leaked, hs, hr, hsocket, tally_connectCall]
    · simp [attemptCalls, leaked, hs, hr, hsocket, tally_connectCall,
        tally_sessionInit, tally_session]

/-- The handles of an attempt on the library that is there, or on one that it makes. -/
def attemptHandles (lib : Option ℕ) (n : ℕ) (r : Answers) : Handles :=
  match lib with
  | some lib => handlesFrom lib n r
  | none => handlesFrom n (n + 1) r

def created (lib : Option ℕ) (n : ℕ) (r : Answers) : Multiset Resource :=
  if lib = none ∧ r.init = 0 then {.library n} else 0

theorem tally_connection (m : Multiset Resource) (lib : Option ℕ) (n : ℕ) (account : Account)
    (r : Answers) : tallyAll m (connectionCalls lib n account r).1 =
      if (connectionCalls lib n account r).2 then
        .channel (attemptHandles lib n r).channel ::ₘ
          (sessionHoldings (attemptHandles lib n r) + (created lib n r + m))
      else (if lib ≠ none ∨ r.init = 0 then leaked account r (attemptHandles lib n r).fd else 0) +
        (created lib n r + m) := by
  cases lib with
  | some lib => simp [connectionCalls, attemptHandles, created, tally_attempt]
  | none =>
    by_cases hi : r.init = 0
    · have hinit : tally m (Call.init r.init (some n)) = .library n ::ₘ m := rfl
      simp [connectionCalls, attemptHandles, created, tally_attempt, hi, hi ▸ hinit]
    · have hinit : tally m (Call.init r.init none) = m := rfl
      simp [connectionCalls, created, hi, hinit]

/-! ## Attempts in a run -/

theorem ready_of_at {c : Config} {rs : List Addr} {w : World} (h : At c rs w) :
    Ready (recorder.core w) where
  lib n hp := by
    have hp' : w.ptr = some n := hp
    have hroot : (⟨.libssh2, n⟩ : Addr) ∈ ptrs w ++ rs := by simp [ptrs, hp']
    obtain ⟨d, hd, hkind⟩ := h.object (Reach.addr h hroot)
    obtain ⟨hmem, haddr⟩ := cellAt_mem hd
    have hpos := h.sound.balanced.positive d hmem
    obtain ⟨lib, hobj⟩ : ∃ lib, d.obj = .libssh2 lib := by
      cases hobj : d.obj <;> simp_all [Wrapper.kind]
    obtain ⟨k, hk⟩ : ∃ k, d.count = k + 1 := ⟨d.count - 1, by omega⟩
    refine ⟨k, lib, hd.trans ?_⟩
    rw [← haddr, ← hk, ← hobj]
  fresh kind n hn hmem := by
    obtain ⟨p, hp, he⟩ := mem_addrs.mp hmem
    have hlt := h.sound.below p hp
    rw [he] at hlt
    exact Nat.not_lt_of_le hn hlt

theorem ready_run (os : List Operation) :
    Ready (recorder.core (State.initial.run os).world) := ready_of_at (reached_run os)

/-- The calls of a step are those of its program. -/
theorem step_trace {o : Operation} {res : Except Exn (List Addr)} {calls : Trace} {m' : Memory}
    (hp : o.pointers = []) (hr : o.receivers = [])
    (h : Runs recorder o.program (recorder.core s.world) res calls m') :
    (s.step o).trace = s.trace ++ calls := by
  obtain ⟨-, -, htrace⟩ := h s.world rfl
  unfold State.step
  rw [hp, hr, if_pos (by simp)]
  rcases hrun : o.program s.world with ⟨res, w⟩
  rw [hrun] at htrace
  cases res <;> exact htrace

theorem handlesOf_runs {p : M ℕ} {res : Except Exn ℕ} {calls : Trace} {m m' : Memory} (kind : Kind)
    (h : Runs recorder p m res calls m') :
    Runs recorder (handlesOf kind p) m (res.map fun n => [Addr.mk kind n]) calls m' := by
  cases res with
  | ok n => exact (h.bind (Runs.pure [Addr.mk kind n])).congr (List.append_nil _) rfl
  | error e => exact h.bind_error _

/-- What a constructor of `SSH` calls, as a step of the program. -/
def callsFrom (s : State) (account : Account) (r : Answers) : Trace × Bool :=
  connectionCalls (libraryOf (recorder.core s.world)) s.world.nextHandle account r

theorem connect_trace (hs : Ready (recorder.core s.world)) (account : Account) (r : Answers) :
    (s.step (.connect account r)).trace = s.trace ++ (callsFrom s account r).1 := by
  obtain ⟨res, m', hrun, -⟩ := construct_runs hs account r
  exact step_trace rfl rfl (handlesOf_runs .ssh hrun)

def Failed (s : State) (account : Account) (r : Answers) : Prop :=
  ∃ e, (SSH.construct account r s.world).1 = .error e

theorem failed_iff (hs : Ready (recorder.core s.world)) (account : Account) (r : Answers) :
    Failed s account r ↔ (callsFrom s account r).2 = false := by
  obtain ⟨res, m', hrun, hok, herr⟩ := construct_runs hs account r
  obtain ⟨hres, -⟩ := hrun s.world rfl
  rw [Failed, hres]
  cases hc : (callsFrom s account r).2 with
  | true => simp [(hok hc).1]
  | false => simpa using herr hc

/-- The library that `create` makes and keeps. -/
def kept (s : State) (r : Answers) : Multiset Resource :=
  if s.world.ptr = none ∧ r.init = 0 then {.library s.world.nextHandle} else 0

/-- The attempt gets as far as `connect`, and is refused. -/
def ConnectRefused (s : State) (account : Account) (r : Answers) : Prop :=
  (s.world.ptr ≠ none ∨ r.init = 0) ∧ r.socket = true ∧ Refused account r

theorem libraryOf_eq_none (hs : Ready (recorder.core s.world)) :
    libraryOf (recorder.core s.world) = none ↔ s.world.ptr = none := by
  constructor
  · intro h
    by_contra hp
    obtain ⟨n, hp⟩ := Option.ne_none_iff_exists'.mp hp
    obtain ⟨k, lib, hlib⟩ := hs.lib n hp
    have hlib' : libraryOf (recorder.core s.world) = some lib := by
      rw [libraryOf, show (recorder.core s.world).ptr = some n from hp, Option.bind_some, hlib]
      rfl
    simp [hlib'] at h
  · intro h
    rw [libraryOf, show (recorder.core s.world).ptr = none from h]
    rfl

theorem outstanding_failed (hs : Ready (recorder.core s.world)) (hf : Failed s account r) :
    outstanding (s.step (.connect account r)).trace = kept s r + outstanding s.trace ↔
      ¬ ConnectRefused s account r := by
  have hfail := (failed_iff hs account r).mp hf
  have htally := tally_connection (outstanding s.trace) (libraryOf (recorder.core s.world))
    s.world.nextHandle account r
  have hkept : created (libraryOf (recorder.core s.world)) s.world.nextHandle r = kept s r := by
    simp [created, kept, libraryOf_eq_none hs]
  rw [connect_trace hs, outstanding, tallyAll_append]
  change tallyAll (outstanding s.trace) _ = _ ↔ _
  rw [callsFrom] at hfail ⊢
  rw [htally, hfail, hkept]
  simp only [Bool.false_eq_true, if_false, leaked, ne_eq, libraryOf_eq_none hs, ConnectRefused]
  have hmore : ∀ (x : Resource) (m : Multiset Resource), x ::ₘ m ≠ m := fun x m =>
    (Multiset.lt_cons_self m x).ne'
  by_cases hreach : ¬ s.world.ptr = none ∨ r.init = 0
  · by_cases hrefused : r.socket = true ∧ Refused account r <;> simp [hreach, hrefused, hmore]
  · simp [hreach]

/-- In every run the attempts that fail leave nothing behind, apart from the library, exactly if
none of them is refused by `connect`. -/
theorem nothing_left_iff (os : List Operation) :
    (∀ before account r after, os = before ++ .connect account r :: after →
      Failed (State.initial.run before) account r →
      outstanding ((State.initial.run before).step (.connect account r)).trace =
        kept (State.initial.run before) r + outstanding (State.initial.run before).trace) ↔
    ∀ before account r after, os = before ++ .connect account r :: after →
      Failed (State.initial.run before) account r →
      ¬ ConnectRefused (State.initial.run before) account r :=
  forall_congr' fun before => forall_congr' fun _ => forall_congr' fun _ => forall_congr' fun _ =>
    imp_congr_right fun _ => imp_congr_right fun hf => outstanding_failed (ready_run before) hf

theorem refused_leaks_descriptor :
    let r : Answers := ⟨⟨true, fun _ => 0, -1⟩, 0, true, 0, some [], false, 0, true, 0, 0⟩
    Failed State.initial ⟨some [], 22, [], []⟩ r ∧
      outstanding (State.initial.step (.connect ⟨some [], 22, [], []⟩ r)).trace ≠
        kept State.initial r + outstanding State.initial.trace := by
  refine ⟨⟨.runtimeError "Failed to connect.\n", ?_⟩, ?_⟩ <;> decide

end CloudSsh.FailedAttempts
