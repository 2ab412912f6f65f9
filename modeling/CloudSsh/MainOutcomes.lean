import CloudSsh.OldConnection

/-!
# How `main` ends when it cannot connect

`main` tests whether the channel is null, but the constructor of `SSH` throws whenever a
stage of the connection fails, and `main` has no handler. The test is never what ends it.
-/
namespace CloudSsh.MainOutcomes
open CountedHeap ScopedPrograms RecordedPrograms LibraryCalls WrapperObjects WrapperClasses
open PublicOperations CallByCall ConnectionAttempts AttemptOutcomes FailedAttempts OldConnection

/-! ## `main` up to its relay loop -/

inductive Act where
  | cerr (text : String)
  | cout (text : String)
  | system (command : String)
  deriving DecidableEq

inductive Ending where
  | relays (channel : ℕ)
  | returns (status : Int)
  /-- An exception that nothing catches. -/
  | terminates (e : Exn)
  deriving DecidableEq

structure Started where
  acts : List Act
  ending : Ending
  deriving DecidableEq

def mainAccount : Account := ⟨some (bytes "127.0.0.1"), 22, bytes "test", bytes "hogehoge"⟩

/-- The member `channel` of an `SSH` object. -/
def channelOf (ssh : ℕ) (w : World) : Option ℕ :=
  match objectAt ⟨.ssh, ssh⟩ w with
  | some (.ssh channel) => channel
  | _ => none

def startMain (r : Answers) : M Started := do
  let ssh ← SSH.construct mainAccount r
  match ← view (channelOf ssh) with
  | none =>
    drop ⟨.ssh, ssh⟩
    pure ⟨[.cerr "Failed to connect SSH.\n"], .returns (-1)⟩
  | some channel =>
    share ⟨.channel, channel⟩
    let _ ← Channel.method .clearBlocking channel 0
    pure ⟨[.system "stty -echo", .system "stty -icanon", .cout "Ready...\n"], .relays channel⟩

/-- There is no handler around the body. -/
def main (r : Answers) (w : World) : Started × World :=
  match startMain r w with
  | (.ok s, w) => (s, w)
  | (.error e, w) => (⟨[], .terminates e⟩, w)

/-! ## The stages of a connection -/

inductive Stage where
  | init | socket | connect | handshake | methodList | password | channel | pty | shell
  deriving DecidableEq

def allStages : List Stage :=
  [.init, .socket, .connect, .handshake, .methodList, .password, .channel, .pty, .shell]

/-- The stage that a call belongs to, and whether it succeeds. -/
def stageOf : Call → Option (Stage × Bool)
  | .init ret _ => some (.init, ret = 0)
  | .socket _ _ _ ret => some (.socket, ret.isSome)
  | .connect _ _ ret => some (.connect, ret = 0)
  | .sessionHandshake _ _ ret => some (.handshake, ret = 0)
  | .strstr list needle => some (.methodList, list.any fun list => needle <:+: list)
  | .userauthPassword _ _ _ ret => some (.password, ret = 0)
  | .channelOpenSession _ ret => some (.channel, ret.isSome)
  | .channel (.requestPty _) _ ret => some (.pty, ret = 0)
  | .channel .shell _ ret => some (.shell, ret = 0)
  | _ => none

def stages (tr : Trace) : List (Stage × Bool) := tr.filterMap stageOf

def mainCalls (r : Answers) : Trace := traceOf (main r State.initial.world).2.log

/-- The relay loop is reached, and every stage has succeeded before, each once and in order. -/
def ReachesLoop (r : Answers) : Prop :=
  (∃ channel, (main r State.initial.world).1.ending = .relays channel) ∧
    stages (mainCalls r) = allStages.map (·, true)

/-- `main` says that it failed to connect, and returns -1 with the terminal as it was. -/
structure SaysFailed (r : Answers) : Prop where
  message : .cerr "Failed to connect SSH.\n" ∈ (main r State.initial.world).1.acts
  status : (main r State.initial.world).1.ending = .returns (-1)
  terminal : ∀ command, .system command ∉ (main r State.initial.world).1.acts

structure AllSucceed (r : Answers) : Prop where
  init : r.init = 0
  socket : r.socket = true
  connect : r.connect = 0
  handshake : r.handshake = 0
  methodList : ∃ list, r.authList = some list ∧ bytes "password" <:+: list
  password : r.password = 0
  channel : r.channel = true
  pty : r.pty = 0
  shell : r.shell = 0

variable {r : Answers}

theorem main_failed (h : Failed State.initial mainAccount r) :
    ∃ e, (main r State.initial.world).1 = ⟨[], .terminates e⟩ := by
  obtain ⟨e, he⟩ := h
  have hconstruct : SSH.construct mainAccount r State.initial.world =
      (.error e, (SSH.construct mainAccount r State.initial.world).2) := Prod.ext he rfl
  refine ⟨e, ?_⟩
  unfold main startMain
  rw [bind_error hconstruct]

theorem main_constructed {n c : ℕ} {w : World}
    (hn : SSH.construct mainAccount r State.initial.world = (.ok n, w))
    (hc : objectAt ⟨.ssh, n⟩ w = some (.ssh (some c))) :
    (main r State.initial.world).1 =
        ⟨[.system "stty -echo", .system "stty -icanon", .cout "Ready...\n"], .relays c⟩ ∧
      ∃ handle, mainCalls r = traceOf w.log ++ [.channel (.setBlocking false) handle 0] := by
  have hview : channelOf n w = some c := by
    rw [channelOf, hc]
  unfold mainCalls main startMain
  rw [bind_ok hn, bind_ok (view_apply _ _), hview]
  refine ⟨rfl, handleAt ⟨.channel, c⟩ (w.onStore (Store.share ⟨.channel, c⟩)), ?_⟩
  exact List.map_append

/-! ## The calls of a connection that is made -/

section Calls

variable {account : Account} {t : Handles} {host : Bytes} {n : ℕ}

theorem attemptCalls_made (hhost : account.hostname = some host)
    (ha : (attemptCalls account r t).2 = true) : (attemptCalls account r t).1 =
      [.socket 2 1 0 (some t.fd),
        .connect (some t.fd) ⟨2, htons account.port.toUInt16, r.inetAddr host⟩ 0,
        .sessionInit (some t.lib) t.session, .sessionHandshake t.session (some t.fd) 0,
        .userauthList t.session account.username r.authList, .strstr r.authList (bytes "password"),
        .userauthPassword t.session account.username account.password 0,
        .channelOpenSession t.session (some t.channel),
        .channel (.requestPty (bytes "xterm")) (some t.channel) 0,
        .channel .shell (some t.channel) 0] := by
  obtain ⟨hs, hr, hsession⟩ := attemptCalls_snd.mp ha
  obtain ⟨hl, hc, hshell⟩ := sessionCalls_snd.mp hsession
  obtain ⟨hh, -, hp⟩ := loginCalls_snd.mp hl
  obtain ⟨hpty, hsh⟩ := shellCalls_snd.mp hshell
  have hconnect : r.connect = 0 := by simpa [Refused, hhost] using hr
  simp [attemptCalls, sessionCalls, loginCalls_ok account hl, shellCalls, connectCall, *]

/-- The stages of a connection that is made. What `strstr` found need not be there: it may have
been given NULL. -/
theorem stages_connection (hc : (connectionCalls none n mainAccount r).2 = true) :
    stages (connectionCalls none n mainAccount r).1 =
      [(.init, true), (.socket, true), (.connect, true), (.handshake, true),
        (.methodList, r.authList.any fun list => bytes "password" <:+: list), (.password, true),
        (.channel, true), (.pty, true), (.shell, true)] := by
  obtain ⟨hinit, ha⟩ := connectionCalls_snd.mp hc
  have hcalls : (connectionCalls none n mainAccount r).1 =
      .init 0 (some n) :: (attemptCalls mainAccount r (handlesFrom n (n + 1) r)).1 := by
    simp [connectionCalls, hinit]
  rw [hcalls, attemptCalls_made rfl ha]
  rfl

theorem allSucceed_iff : AllSucceed r ↔ (connectionCalls none 0 mainAccount r).2 = true ∧
    (r.authList.any fun list => bytes "password" <:+: list) = true := by
  have hlist : (r.authList.any fun list => bytes "password" <:+: list) = true ↔
      ∃ list, r.authList = some list ∧ bytes "password" <:+: list := by
    cases r.authList <;> simp
  have hrefused : Refused mainAccount r ↔ r.connect ≠ 0 := by simp [Refused, mainAccount]
  rw [connectionCalls_snd, attemptCalls_snd, sessionCalls_snd, loginCalls_snd,
    shellCalls_snd, hlist, hrefused, not_not]
  constructor
  · rintro ⟨hi, hs, hc, hh, ⟨list, hl, hkey⟩, hp, hch, hpty, hsh⟩
    exact ⟨⟨hi, hs, hc, ⟨hh, by simpa [offered, hl] using hkey, hp⟩, hch, hpty, hsh⟩, list, hl,
      hkey⟩
  · rintro ⟨⟨hi, hs, hc, ⟨hh, -, hp⟩, hch, hpty, hsh⟩, hl⟩
    exact ⟨hi, hs, hc, hh, hl, hp, hch, hpty, hsh⟩

end Calls

/-! ## The two ends of `main` -/

/-- `main` reaches its loop when the constructor completes, and otherwise ends in an exception. -/
theorem main_cases (r : Answers) :
    ((connectionCalls none 0 mainAccount r).2 = true ∧
      ∃ c handle, (main r State.initial.world).1 =
          ⟨[.system "stty -echo", .system "stty -icanon", .cout "Ready...\n"], .relays c⟩ ∧
        mainCalls r = (connectionCalls none 0 mainAccount r).1 ++
          [.channel (.setBlocking false) handle 0]) ∨
    ((connectionCalls none 0 mainAccount r).2 = false ∧
      ∃ e, (main r State.initial.world).1 = ⟨[], .terminates e⟩) := by
  have hs := ready_run []
  cases hcalls : (connectionCalls none 0 mainAccount r).2 with
  | false => exact .inr ⟨rfl, main_failed ((failed_iff hs mainAccount r).mpr hcalls)⟩
  | true =>
    obtain ⟨n, c, hn, hc⟩ := (constructed_iff hs mainAccount r).mpr hcalls
    obtain ⟨hmain, handle, htrace⟩ := main_constructed (Prod.ext hn rfl) hc
    obtain ⟨res, m', hrun, -⟩ := construct_runs hs mainAccount r
    have hlog : traceOf (SSH.construct mainAccount r State.initial.world).2.log =
        (connectionCalls none 0 mainAccount r).1 := (hrun State.initial.world rfl).2.2
    exact .inl ⟨rfl, c, handle, hmain, by rw [htrace, hlog]⟩

/-- How `main` ends decides what it can have reported. -/
theorem not_saysFailed {e : Ending} (h : (main r State.initial.world).1.ending = e)
    (he : e ≠ .returns (-1)) : ¬ SaysFailed r := fun hfailed => he (h.symm.trans hfailed.status)

theorem not_reachesLoop {e : Exn} (h : (main r State.initial.world).1.ending = .terminates e) :
    ¬ ReachesLoop r := by
  rintro ⟨⟨c, hc⟩, -⟩
  rw [h] at hc
  cases hc

/-- Whatever the stages answer, `main` reaches its loop after all of them or says that it failed if
and only if all of them succeed. -/
theorem reports_failure_iff (r : Answers) : ReachesLoop r ∨ SaysFailed r ↔ AllSucceed r := by
  rw [allSucceed_iff]
  rcases main_cases r with ⟨hcalls, c, handle, hmain, htrace⟩ | ⟨hcalls, e, hmain⟩
  · have hquiet : ¬ SaysFailed r := not_saysFailed (congrArg Started.ending hmain) (by simp)
    have hstages : stages (mainCalls r) = stages (connectionCalls none 0 mainAccount r).1 := by
      rw [htrace, stages, List.filterMap_append]
      exact List.append_nil _
    rw [ReachesLoop, hmain, hstages, stages_connection hcalls]
    simp [hquiet, hcalls, allStages]
  · have hending := congrArg Started.ending hmain
    refine iff_of_false (not_or.mpr ⟨not_reachesLoop hending, ?_⟩) (by simp [hcalls])
    exact not_saysFailed hending (by simp)

/-- The connection is refused, and nobody catches what the constructor throws. -/
theorem refused_connection_unreported :
    let r : Answers := ⟨⟨true, fun _ => 0, -1⟩, 0, true, 0, some [], false, 0, true, 0, 0⟩
    (main r State.initial.world).1 = ⟨[], .terminates (.runtimeError "Failed to connect.\n")⟩ ∧
      ¬ (ReachesLoop r ∨ SaysFailed r) := by
  intro r
  have hmain : (main r State.initial.world).1 =
      ⟨[], .terminates (.runtimeError "Failed to connect.\n")⟩ := by decide
  have hending := congrArg Started.ending hmain
  exact ⟨hmain, not_or.mpr ⟨not_reachesLoop hending, not_saysFailed hending (by simp)⟩⟩

end CloudSsh.MainOutcomes
