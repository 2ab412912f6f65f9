import CloudSsh.CallByCall

/-!
# Connection attempts

The `SSH` constructor and `connect_to_ssh` call by call: the calls that an attempt
makes, in terms of the answers it gets, and the objects that a successful one leaves.
-/
namespace CloudSsh.ConnectionAttempts
open CountedHeap ScopedPrograms RecordedPrograms LibraryCalls WrapperObjects WrapperClasses
open CallByCall

/-! ## The calls -/

/-- The handles that an attempt works with. -/
structure Handles where
  lib : ℕ
  fd : ℕ
  session : Option ℕ
  channel : ℕ

/-- The handles of an attempt on the library `lib` that is given the handles from `n` on. -/
def handlesFrom (lib n : ℕ) (r : Answers) : Handles :=
  ⟨lib, n, if r.sessionInit then some (n + 1) else none, n + 1 + if r.sessionInit then 1 else 0⟩

def connectCall (account : Account) (r : Answers) (fd : ℕ) : Trace :=
  (account.hostname.map fun host => Call.connect (some fd)
    ⟨2, htons account.port.toUInt16, r.inetAddr host⟩ r.connect).toList

def Refused (account : Account) (r : Answers) : Prop := account.hostname ≠ none ∧ r.connect ≠ 0

instance (account : Account) (r : Answers) : Decidable (Refused account r) :=
  inferInstanceAs (Decidable (_ ∧ _))

/-- Is the method there that the attempt is going to use? -/
def offered (r : Answers) : Bool :=
  match r.authList with
  | some list => decide (bytes "password" <:+: list)
  | none => r.strstrNull

/-- The calls up to the first that fails, and whether none does. -/
def loginCalls (account : Account) (r : Answers) (t : Handles) : Trace × Bool :=
  let handshake := Call.sessionHandshake t.session (some t.fd) r.handshake
  let list := Call.userauthList t.session account.username r.authList
  let password := Call.userauthPassword t.session account.username account.password r.password
  if r.handshake ≠ 0 then ([handshake], false)
  else if offered r then
    ([handshake, list, .strstr r.authList (bytes "password"), password], decide (r.password = 0))
  else ([handshake, list, .strstr r.authList (bytes "password")], false)

def shellCalls (r : Answers) (t : Handles) : Trace × Bool :=
  let pty := Call.channel (.requestPty (bytes "xterm")) (some t.channel) r.pty
  if r.pty ≠ 0 then ([pty], false)
  else ([pty, .channel .shell (some t.channel) r.shell], decide (r.shell = 0))

/-- The calls that give the session and the descriptor back. -/
def closingCalls (t : Handles) : Trace := [.sessionFree t.session, .close (some t.fd)]

/-- The calls on a session, with those that give back what was acquired when one fails. -/
def sessionCalls (account : Account) (r : Answers) (t : Handles) : Trace × Bool :=
  let login := loginCalls account r t
  if login.2 then
    if r.channel then
      let shell := shellCalls r t
      let calls := login.1 ++ .channelOpenSession t.session (some t.channel) :: shell.1
      if shell.2 then (calls, true)
      else (calls ++ .channelFree (some t.channel) :: closingCalls t, false)
    else (login.1 ++ .channelOpenSession t.session none :: closingCalls t, false)
  else (login.1 ++ closingCalls t, false)

def attemptCalls (account : Account) (r : Answers) (t : Handles) : Trace × Bool :=
  let opening := .socket 2 1 0 (some t.fd) :: connectCall account r t.fd
  if r.socket then
    if Refused account r then (opening, false)
    else
      let session := sessionCalls account r t
      (opening ++ .sessionInit (some t.lib) t.session :: session.1, session.2)
  else ([.socket 2 1 0 none], false)

/-- The calls of an attempt, where `lib` is the library that is there already and `n` the next
handle, and whether it succeeds. -/
def connectionCalls (lib : Option ℕ) (n : ℕ) (account : Account) (r : Answers) : Trace × Bool :=
  match lib with
  | some lib => attemptCalls account r (handlesFrom lib n r)
  | none =>
    if r.init = 0 then
      let attempt := attemptCalls account r (handlesFrom n (n + 1) r)
      (.init r.init (some n) :: attempt.1, attempt.2)
    else ([.init r.init none], false)

variable {α : Type} {h : Objects} {nextHandle nextObject : ℕ} {ptr : Option ℕ}
  {account : Account} {r : Answers}

section Success

variable {t : Handles} {n : ℕ}

theorem loginCalls_snd : (loginCalls account r t).2 = true ↔
    r.handshake = 0 ∧ offered r = true ∧ r.password = 0 := by
  unfold loginCalls
  split
  next h => simp [h]
  next h =>
    rw [not_not] at h
    split <;> simp_all

theorem shellCalls_snd : (shellCalls r t).2 = true ↔ r.pty = 0 ∧ r.shell = 0 := by
  unfold shellCalls
  split
  next h => simp [h]
  next h => simpa using fun _ => not_not.mp h

theorem attemptCalls_snd : (attemptCalls account r t).2 = true ↔
    r.socket = true ∧ ¬ Refused account r ∧ (sessionCalls account r t).2 = true := by
  unfold attemptCalls
  cases r.socket with
  | false => simp
  | true => by_cases h : Refused account r <;> simp [h]

theorem connectionCalls_snd : (connectionCalls none n account r).2 = true ↔
    r.init = 0 ∧ (attemptCalls account r (handlesFrom n (n + 1) r)).2 = true := by
  unfold connectionCalls
  by_cases h : r.init = 0 <;> simp [h]

end Success

/-! ## What both programs share -/

def attempt (account : Account) (r : Answers) (body : ℕ → ℕ → M α) : M α := do
  let libssh2 ← Libssh2.create r.init
  holding ⟨.libssh2, libssh2⟩ do
    let socket ← Socket.create account.hostname account.port r.toNetwork
    holding ⟨.socket, socket⟩ do
      let session ← Libssh2.newSession libssh2 r.sessionInit
      holding ⟨.session, session⟩ (body socket session)

/-- The login, with what is done when one of its calls fails. -/
def loginThen (account : Account) (r : Answers) (handshake list password rest : M α)
    (socket session : ℕ) : M α := do
  if !(← Session.handshake session socket r.handshake) then handshake
  else if !(← Session.isPasswordAuthSupported session account.username r.authList r.strstrNull) then
    list
  else if !(← Session.passwordAuth session account.username account.password r.password) then
    password
  else rest

def oldOpen (r : Answers) (session : ℕ) : M (Option ℕ) := do
  let channel ← Session.newChannel session r.channel
  unwinding (World.onStore (Store.drop ⟨.channel, channel⟩)) do
    Channel.shell channel r.pty r.shell
    pure (some channel)

def newOpen (ssh : ℕ) (r : Answers) (session : ℕ) : M ℕ := do
  let channel ← Session.newChannel session r.channel
  SSH.assignChannel ssh (some channel)
  Channel.shell channel r.pty r.shell
  pure ssh

theorem connectToSsh_eq (account : Account) (r : Answers) :
    connectToSsh account r = attempt account r fun socket session =>
      loginThen account r (pure none) (pure none) (pure none) (oldOpen r session) socket session :=
  rfl

theorem construct_eq (account : Account) (r : Answers) : SSH.construct account r = (do
    let ssh ← place (.ssh none)
    unwinding (World.onStore (Store.drop ⟨.ssh, ssh⟩)) <| attempt account r fun socket session =>
      loginThen account r (raise (.runtimeError "Failed to establish SSH connection."))
        (raise (.runtimeError "Password Authentication not supported."))
        (raise (.runtimeError "Password Authentication failed.\n")) (newOpen ssh r session)
        socket session) := by
  simp only [SSH.construct, raiseIf_bind]
  rfl

/-- The objects of the library and the first object that the attempt creates itself. -/
structure Numbers extends Handles where
  libssh2 : ℕ
  first : ℕ

namespace Numbers

def socketCell (t : Numbers) (count : ℕ) : Cell Addr Wrapper :=
  ⟨⟨.socket, t.first⟩, count, .socket (some t.fd)⟩

def sessionCell (t : Numbers) (count : ℕ) (sock : Option ℕ) : Cell Addr Wrapper :=
  ⟨⟨.session, t.first + 1⟩, count, .session t.session t.libssh2 sock⟩

def channelCell (t : Numbers) (count : ℕ) : Cell Addr Wrapper :=
  ⟨⟨.channel, t.first + 2⟩, count, .channel (some t.channel) (t.first + 1)⟩

end Numbers

/-- The objects when a session has been created. -/
def bodyHeap (t : Numbers) (h : Objects) : Objects :=
  t.sessionCell 1 none :: t.socketCell 1 :: retain ⟨.libssh2, t.libssh2⟩ h

/-- The objects after the handshake. -/
def sessionHeap (t : Numbers) (h : Objects) (sessions sockets : ℕ) : Objects :=
  t.sessionCell sessions (some t.first) :: t.socketCell sockets :: retain ⟨.libssh2, t.libssh2⟩ h

/-- The objects after the channel was opened. -/
def channelHeap (t : Numbers) (h : Objects) (sessions sockets : ℕ) : Objects :=
  t.channelCell 1 :: sessionHeap t h sessions sockets

/-- The library is there and the numbers of the attempt's objects are not in use. -/
structure Base (t : Numbers) (h : Objects) : Prop where
  lib : ∃ n, cellAt h ⟨.libssh2, t.libssh2⟩ = some ⟨⟨.libssh2, t.libssh2⟩, n + 2, .libssh2 t.lib⟩
  socket : ⟨.socket, t.first⟩ ∉ addrs h
  session : ⟨.session, t.first + 1⟩ ∉ addrs h
  channel : ⟨.channel, t.first + 2⟩ ∉ addrs h

theorem Base.withLib {t : Numbers} (hb : Base t h) : Base t (retain ⟨.libssh2, t.libssh2⟩ h) where
  lib := by
    obtain ⟨n, hlib⟩ := hb.lib
    exact ⟨n + 1, cellAt_retain hlib⟩
  socket := by
    rw [addrs_retain]
    exact hb.socket
  session := by
    rw [addrs_retain]
    exact hb.session
  channel := by
    rw [addrs_retain]
    exact hb.channel

section Methods

variable {t : Numbers} {d : Cell Addr Wrapper} {s : ℕ}

theorem connectOn_ok (account : Account) (host : Bytes) (hr : r.connect = 0) (fd : ℕ) (m : Memory) :
    Runs recorder (Socket.connectOn (some fd) host account.port.toUInt16 r.toNetwork) m (.ok ())
      [.connect (some fd) ⟨2, htons account.port.toUInt16, r.inetAddr host⟩ r.connect] m :=
  (issue_runs _).bind (Runs.raiseIf_false _ (by simp [hr]))

theorem socketCreate_ok (hs : r.socket = true) (hr : ¬ Refused account r)
    (hfd : t.fd = nextHandle) :
    Runs recorder (Socket.create account.hostname account.port r.toNetwork)
      ⟨h, nextHandle, t.first, ptr⟩ (.ok t.first)
      (.socket 2 1 0 (some t.fd) :: connectCall account r t.fd)
      ⟨t.socketCell 1 :: h, nextHandle + 1, t.first + 1, ptr⟩ := by
  subst hfd
  have hsock : Runs recorder (acquire r.socket (.socket 2 1 0)) ⟨h, t.fd, t.first, ptr⟩
      (.ok (some t.fd)) [.socket 2 1 0 (some t.fd)] ⟨h, t.fd + 1, t.first, ptr⟩ := by
    rw [hs]
    exact acquire_granted _
  cases hhost : account.hostname with
  | none =>
    exact (hsock.bind (place_runs _)).congr (by simp [connectCall, hhost]) rfl
  | some host =>
    have hok : r.connect = 0 := by simpa [Refused, hhost] using hr
    exact (hsock.bind ((connectOn_ok account host hok _ _).bind (place_runs _))).congr
      (by simp [connectCall, hhost]) rfl

theorem socketCreate_refused (hs : r.socket = true) (hr : Refused account r) (h : Objects) (n k : ℕ)
    (ptr : Option ℕ) :
    ∃ e, Runs recorder (Socket.create account.hostname account.port r.toNetwork) ⟨h, n, k, ptr⟩
      (.error e) (.socket 2 1 0 (some n) :: connectCall account r n) ⟨h, n + 1, k, ptr⟩ := by
  have hsock : Runs recorder (acquire r.socket (.socket 2 1 0)) ⟨h, n, k, ptr⟩ (.ok (some n))
      [.socket 2 1 0 (some n)] ⟨h, n + 1, k, ptr⟩ := by
    rw [hs]
    exact acquire_granted _
  cases hhost : account.hostname with
  | none => exact absurd hhost hr.1
  | some host =>
    have hconnect : Runs recorder (Socket.connectOn (some n) host account.port.toUInt16 r.toNetwork)
        ⟨h, n + 1, k, ptr⟩ (.error (.runtimeError "Failed to connect.\n"))
        [.connect (some n) ⟨2, htons account.port.toUInt16, r.inetAddr host⟩ r.connect]
        ⟨h, n + 1, k, ptr⟩ := (issue_runs _).bind (Runs.raiseIf_true _ hr.2)
    exact ⟨_, (hsock.bind (hconnect.bind_error _)).congr (by simp [connectCall, hhost]) rfl⟩

theorem socketCreate_denied (account : Account) (hs : r.socket = false) (m : Memory) :
    ∃ e, Runs recorder (Socket.create account.hostname account.port r.toNetwork) m (.error e)
      [.socket 2 1 0 none] m := by
  have hsock : Runs recorder (acquire r.socket (.socket 2 1 0)) m (.ok none)
    [.socket 2 1 0 none] m := by
    rw [hs]
    exact acquire_denied _
  exact ⟨_, hsock.bind (Runs.raise (Exn.runtimeError "Socket error.\n"))⟩

theorem newSession_runs (hb : Base t h)
    (hs : t.session = if r.sessionInit then some nextHandle else none) (ptr : Option ℕ) :
    Runs recorder (Libssh2.newSession t.libssh2 r.sessionInit)
      ⟨t.socketCell 1 :: h, nextHandle, t.first + 1, ptr⟩ (.ok (t.first + 1))
      [.sessionInit (some t.lib) t.session]
      ⟨bodyHeap t h, nextHandle + (if r.sessionInit then 1 else 0),
        t.first + 2, ptr⟩ := by
  obtain ⟨n, hlib⟩ := hb.lib
  have hhandle : ((cellAt (retain ⟨.libssh2, t.libssh2⟩ (t.socketCell 1 :: h))
    ⟨.libssh2, t.libssh2⟩).map
      Cell.obj).bind Wrapper.handle = some t.lib := by
    simp [retain_cons, cellAt_cons, cellAt_retain hlib, Numbers.socketCell, Wrapper.handle]
  have hacquire : Runs recorder (acquire r.sessionInit (.sessionInit (some t.lib)))
      ⟨retain ⟨.libssh2, t.libssh2⟩ (t.socketCell 1 :: h), nextHandle, t.first + 1, ptr⟩
        (.ok t.session)
      [.sessionInit (some t.lib) t.session]
      ⟨retain ⟨.libssh2, t.libssh2⟩ (t.socketCell 1 :: h),
        nextHandle + (if r.sessionInit then 1 else 0), t.first + 1, ptr⟩ := by
    rw [hs]
    cases r.sessionInit with
    | true => exact acquire_granted _
    | false => exact acquire_denied _
  have hview := handleAt_runs (m := ⟨retain ⟨.libssh2, t.libssh2⟩ (t.socketCell 1 :: h), nextHandle,
    t.first + 1, ptr⟩) ⟨.libssh2, t.libssh2⟩
  rw [hhandle] at hview
  refine ((share_runs _).bind (Runs.ensuring (hview.bind (hacquire.bind ((share_runs _).bind
    (place_runs _))))
      (drop_changes (Drops.shared (c := ⟨⟨.libssh2, t.libssh2⟩, n + 4, .libssh2 t.lib⟩) ?_ (by simp)
    (Drops.nil _))))).congr (by simp) ?_
  · simp [retain_cons, cellAt_cons, cellAt_retain, hlib, Numbers.socketCell, Wrapper.kind]
  · simp [bodyHeap, retain_cons, forget_cons, forget_retain, Numbers.socketCell,
      Numbers.sessionCell, Wrapper.kind]

/-- A method that makes one call on the handle of its object. -/
theorem call_runs {a : Addr} {m : Memory} (hd : cellAt m.heap a = some d)
    (x : Option ℕ → Call) (v : α) :
    Runs recorder (do
      let handle ← view (handleAt a)
      issue (x handle)
      pure v : M α) m (.ok v) [x d.obj.handle] m := by
  have hview := handleAt_runs (m := m) a
  rw [hd] at hview
  exact hview.bind ((issue_runs _).bind (Runs.pure v))

theorem handshake_runs (hb : Base t h) (rc : Int) (nextHandle nextObject : ℕ) (ptr : Option ℕ) :
    Runs recorder (Session.handshake (t.first + 1) t.first rc)
      ⟨bodyHeap t h, nextHandle, nextObject, ptr⟩ (.ok (decide (rc = 0)))
        [.sessionHandshake t.session (some t.fd) rc]
      ⟨sessionHeap t h 1 2, nextHandle, nextObject, ptr⟩ := by
  have hshare : ∀ n, retain ⟨.socket, t.first⟩ (t.sessionCell 1 none :: t.socketCell n ::
      retain ⟨.libssh2, t.libssh2⟩ h) =
      t.sessionCell 1 none :: t.socketCell (n + 1) :: retain ⟨.libssh2, t.libssh2⟩ h := fun n => by
    simp [retain_cons, Numbers.sessionCell, Numbers.socketCell, retain_of_not_mem hb.withLib.socket]
  have hassign : Runs recorder (assign ⟨.session, t.first + 1⟩
      (.session t.session t.libssh2 (some t.first)) none)
      ⟨t.sessionCell 1 none :: t.socketCell 3 :: retain ⟨.libssh2, t.libssh2⟩ h,
        nextHandle, nextObject,
        ptr⟩ (.ok ()) [] ⟨sessionHeap t h 1 3, nextHandle, nextObject, ptr⟩ :=
    ((Runs.update (overwrite_changes _ _)).bind (Runs.pure ())).congr rfl (by
      simp [setObj_cons, sessionHeap, Numbers.sessionCell, Numbers.socketCell,
        setObj_of_not_mem hb.withLib.session])
  have hd : cellAt (sessionHeap t h 1 3) ⟨.socket, t.first⟩ = some (t.socketCell 3) := by
    simp [sessionHeap, cellAt_cons, Numbers.sessionCell, Numbers.socketCell]
  have hdrop : Drops [⟨.socket, t.first⟩] (sessionHeap t h 1 3) [] (sessionHeap t h 1 2) := by
    have hf : forget ⟨.socket, t.first⟩ (sessionHeap t h 1 3) = sessionHeap t h 1 2 := by
      simp [sessionHeap, forget_cons, Numbers.sessionCell, Numbers.socketCell,
        forget_of_not_mem hb.withLib.socket]
    exact hf ▸ Drops.shared hd (by simp [Numbers.socketCell]) (Drops.nil _)
  have hview := objectAt_runs (m := ⟨t.sessionCell 1 none :: t.socketCell 2 ::
    retain ⟨.libssh2, t.libssh2⟩ h, nextHandle, nextObject, ptr⟩) ⟨.session, t.first + 1⟩
  rw [show cellAt (t.sessionCell 1 none :: t.socketCell 2 :: retain ⟨.libssh2, t.libssh2⟩ h)
    ⟨.session, t.first + 1⟩ = some (t.sessionCell 1 none) by
      simp [cellAt_cons, Numbers.sessionCell]] at hview
  have hcall := call_runs (m := ⟨sessionHeap t h 1 3, nextHandle, nextObject, ptr⟩) hd
    (.sessionHandshake t.session · rc) (decide (rc = 0))
  refine Runs.congr (withCopy_runs ⟨sessionHeap t h 1 3, nextHandle, nextObject, ptr⟩ ?_ hdrop)
    (List.append_nil _) rfl
  rw [bodyHeap, hshare]
  refine hview.bind ((share_runs _).bind ?_)
  rw [hshare]
  exact hassign.bind hcall

theorem passwordAuth_runs {m : Memory} (hd : cellAt m.heap ⟨.session, s⟩ = some d)
    (account : Account)
    (rc : Int) : Runs recorder (Session.passwordAuth s account.username account.password rc) m
      (.ok (decide (rc = 0))) [.userauthPassword d.obj.handle account.username account.password rc]
      m :=
  call_runs hd _ _

theorem isPasswordAuthSupported_runs {m : Memory} (hd : cellAt m.heap ⟨.session, s⟩ = some d)
    (username : Bytes) (r : Answers) :
    Runs recorder (Session.isPasswordAuthSupported s username r.authList r.strstrNull) m
      (.ok (offered r))
      [.userauthList d.obj.handle username r.authList,
        .strstr r.authList (bytes "password")] m := by
  refine Runs.bind (call_runs hd (.userauthList · username r.authList) r.authList)
    ((issue_runs _).bind ?_)
  rw [offered]
  cases r.authList with
  | none => exact Runs.pure r.strstrNull
  | some list => exact Runs.pure _

theorem shell_ok {m : Memory} (hd : cellAt m.heap ⟨.channel, s⟩ = some (t.channelCell 1))
    (h : (shellCalls r t.toHandles).2 = true) :
    Runs recorder (Channel.shell s r.pty r.shell) m (.ok ()) (shellCalls r t.toHandles).1 m := by
  obtain ⟨hp, hs⟩ : r.pty = 0 ∧ r.shell = 0 := by
    simp only [shellCalls] at h
    split at h <;> simp_all
  have hpty := call_runs hd (.channel (.requestPty (bytes "xterm")) · r.pty) r.pty
  have hshell := call_runs hd (.channel .shell · r.shell) r.shell
  refine (Runs.bind hpty ((Runs.raiseIf_false _ (not_not.mpr hp)).bind (Runs.bind hshell
    (Runs.raiseIf_false _ (not_not.mpr hs))))).congr ?_ rfl
  simp [shellCalls, hp, Numbers.channelCell, Wrapper.handle]

theorem shell_error {m : Memory} (hd : cellAt m.heap ⟨.channel, s⟩ = some (t.channelCell 1))
    (h : (shellCalls r t.toHandles).2 = false) :
    ∃ e, Runs recorder (Channel.shell s r.pty r.shell) m (.error e)
      (shellCalls r t.toHandles).1 m := by
  have hpty := call_runs hd (.channel (.requestPty (bytes "xterm")) · r.pty) r.pty
  have hshell := call_runs hd (.channel .shell · r.shell) r.shell
  by_cases hp : r.pty = 0
  · have hs : r.shell ≠ 0 := by simpa [shellCalls, hp] using h
    refine ⟨_, (Runs.bind hpty ((Runs.raiseIf_false _ (not_not.mpr hp)).bind (Runs.bind hshell
      (Runs.raiseIf_true _ hs)))).congr ?_ rfl⟩
    simp [shellCalls, hp, Numbers.channelCell, Wrapper.handle]
  · refine ⟨_, (Runs.bind hpty ((Runs.raiseIf_true _ hp).bind_error _)).congr ?_ rfl⟩
    simp [shellCalls, hp, Numbers.channelCell, Wrapper.handle]

/-! ## Pointers to the session -/

theorem Base.retain_session (hb : Base t h) (n k : ℕ) :
    retain ⟨.session, t.first + 1⟩ (sessionHeap t h n k) = sessionHeap t h (n + 1) k := by
  simp [sessionHeap, retain_cons, Numbers.sessionCell, Numbers.socketCell,
    retain_of_not_mem hb.withLib.session]

theorem Base.forget_session (hb : Base t h) (n k : ℕ) :
    forget ⟨.session, t.first + 1⟩ (sessionHeap t h (n + 1) k) = sessionHeap t h n k := by
  rw [← hb.retain_session, forget_retain]

theorem cellAt_session (t : Numbers) (h : Objects) (n k : ℕ) :
    cellAt (sessionHeap t h n k) ⟨.session, t.first + 1⟩ =
      some (t.sessionCell n (some t.first)) := by
  simp [sessionHeap, cellAt_cons, Numbers.sessionCell]

theorem Base.drop_session (hb : Base t h) (n k : ℕ) :
    Drops [⟨.session, t.first + 1⟩] (sessionHeap t h (n + 2) k) [] (sessionHeap t h (n + 1) k) := by
  rw [← hb.forget_session (n + 1)]
  exact Drops.shared (cellAt_session ..) (by simp [Numbers.sessionCell]) (Drops.nil _)

theorem newChannel_ok (hb : Base t h) (hr : r.channel = true) :
    Runs recorder (Session.newChannel (t.first + 1) r.channel)
      ⟨sessionHeap t h 1 2, t.channel, t.first + 2, ptr⟩ (.ok (t.first + 2))
      [.channelOpenSession t.session (some t.channel)]
      ⟨channelHeap t h 2 2, t.channel + 1, t.first + 3, ptr⟩ := by
  rw [hr]
  have hdrop : Drops [⟨.session, t.first + 1⟩] (t.channelCell 1 :: sessionHeap t h 3 2) []
      (channelHeap t h 2 2) := by
    have hf : forget ⟨.session, t.first + 1⟩ (t.channelCell 1 :: sessionHeap t h 3 2) =
        channelHeap t h 2 2 := by
      simp [forget_cons, hb.forget_session, channelHeap, Numbers.channelCell]
    rw [← hf]
    exact Drops.shared (c := t.sessionCell 3 (some t.first))
      (by simp [cellAt_cons, cellAt_session, Numbers.channelCell]) (by simp [Numbers.sessionCell])
      (Drops.nil _)
  refine Runs.congr (withCopy_runs ⟨t.channelCell 1 :: sessionHeap t h 3 2, t.channel + 1,
    t.first + 3, ptr⟩ ?_ hdrop) (List.append_nil _) rfl
  rw [hb.retain_session]
  refine (share_runs _).bind ?_
  rw [hb.retain_session]
  have hview := handleAt_runs (m := ⟨sessionHeap t h 3 2, t.channel, t.first + 2, ptr⟩)
    ⟨.session, t.first + 1⟩
  rw [cellAt_session] at hview
  exact hview.bind ((acquire_granted _).bind (place_runs _))

theorem newChannel_error (hb : Base t h) (hr : r.channel = false) (nextHandle nextObject : ℕ)
    (ptr : Option ℕ) :
    ∃ e, Runs recorder (Session.newChannel (t.first + 1) r.channel)
      ⟨sessionHeap t h 1 2, nextHandle, nextObject, ptr⟩ (.error e)
      [.channelOpenSession t.session none] ⟨sessionHeap t h 1 2, nextHandle, nextObject, ptr⟩ := by
  rw [hr]
  refine ⟨.runtimeError "Unable to open a session from session\n", Runs.congr (withCopy_runs
    ⟨sessionHeap t h 2 2, nextHandle, nextObject, ptr⟩ ?_ (hb.drop_session 0 2))
    (List.append_nil _) rfl⟩
  rw [hb.retain_session]
  refine (share_runs _).bind ?_
  rw [hb.retain_session]
  have hview := handleAt_runs (m := ⟨sessionHeap t h 3 2, nextHandle, nextObject, ptr⟩)
    ⟨.session, t.first + 1⟩
  rw [cellAt_session] at hview
  have hdrop : Runs recorder (drop ⟨.session, t.first + 1⟩)
      ⟨sessionHeap t h 3 2, nextHandle, nextObject, ptr⟩ (.ok ()) []
      ⟨sessionHeap t h 2 2, nextHandle, nextObject, ptr⟩ := drop_runs (hb.drop_session 1 2)
  exact hview.bind ((acquire_denied _).bind (hdrop.bind (Runs.raise _)))

/-! ## The scopes are left -/

theorem Base.close_session (hb : Base t h) : Drops [⟨.session, t.first + 1⟩] (sessionHeap t h 1 2)
    [.sessionFree t.session] (t.socketCell 1 :: h) := by
  obtain ⟨n, hlib⟩ := hb.lib
  have hrem : remove ⟨.session, t.first + 1⟩ (sessionHeap t h 1 2) =
      t.socketCell 2 :: retain ⟨.libssh2, t.libssh2⟩ h := by
    simp [sessionHeap, remove_cons, remove_of_not_mem hb.withLib.session, Numbers.sessionCell,
      Numbers.socketCell]
  have hsocket : forget ⟨.socket, t.first⟩ (t.socketCell 2 :: retain ⟨.libssh2, t.libssh2⟩ h) =
      t.socketCell 1 :: retain ⟨.libssh2, t.libssh2⟩ h := by
    simp [forget_cons, forget_of_not_mem hb.withLib.socket, Numbers.socketCell]
  have hforget : forget ⟨.libssh2, t.libssh2⟩ (t.socketCell 1 :: retain ⟨.libssh2, t.libssh2⟩ h) =
      t.socketCell 1 :: h := by
    simp [forget_cons, forget_retain, Numbers.socketCell]
  refine Drops.last [] (cellAt_session ..) (by simp [Numbers.sessionCell]) ?_
  change Drops [⟨.socket, t.first⟩, ⟨.libssh2, t.libssh2⟩] _ _ _
  rw [hrem]
  refine Drops.shared (c := t.socketCell 2) (by simp [cellAt_cons, Numbers.socketCell])
    (by simp [Numbers.socketCell]) ?_
  rw [hsocket]
  refine Drops.shared (c := ⟨⟨.libssh2, t.libssh2⟩, n + 3, .libssh2 t.lib⟩) ?_ (by simp) ?_
  · simp [cellAt_cons, cellAt_retain hlib, Numbers.socketCell]
  · rw [hforget]
    exact Drops.nil _

theorem Base.close_socket (hb : Base t h) :
    Drops [⟨.socket, t.first⟩] (t.socketCell 1 :: h) [.close (some t.fd)] h := by
  have hrem : remove ⟨.socket, t.first⟩ (t.socketCell 1 :: h) = h := by
    simp [remove_cons, remove_of_not_mem hb.socket, Numbers.socketCell]
  refine Drops.last [] (c := t.socketCell 1) (by simp [cellAt_cons, Numbers.socketCell])
    (by simp [Numbers.socketCell]) ?_
  rw [hrem]
  exact Drops.nil h

theorem Base.leave_session (hb : Base t h) :
    Drops [⟨.session, t.first + 1⟩] (channelHeap t h 2 2) [] (channelHeap t h 1 2) := by
  have hf : forget ⟨.session, t.first + 1⟩ (channelHeap t h 2 2) = channelHeap t h 1 2 := by
    simp [channelHeap, forget_cons, hb.forget_session, Numbers.channelCell]
  rw [← hf]
  refine Drops.shared (c := t.sessionCell 2 (some t.first)) ?_ (by simp [Numbers.sessionCell])
    (Drops.nil _)
  simp [channelHeap, cellAt_cons, cellAt_session, Numbers.channelCell]

theorem Base.leave_socket (hb : Base t h) : Drops [⟨.socket, t.first⟩] (channelHeap t h 1 2) []
    (channelHeap t h 1 1) := by
  have hf : forget ⟨.socket, t.first⟩ (channelHeap t h 1 2) = channelHeap t h 1 1 := by
    simp [channelHeap, sessionHeap, forget_cons, forget_of_not_mem hb.withLib.socket,
      Numbers.channelCell, Numbers.sessionCell, Numbers.socketCell]
  rw [← hf]
  refine Drops.shared (c := t.socketCell 2) ?_ (by simp [Numbers.socketCell]) (Drops.nil _)
  simp [channelHeap, sessionHeap, cellAt_cons, Numbers.channelCell, Numbers.sessionCell,
    Numbers.socketCell]

theorem Base.close_channel (hb : Base t h) : Drops [⟨.channel, t.first + 2⟩] (channelHeap t h 2 2)
    [.channelFree (some t.channel)] (sessionHeap t h 1 2) := by
  have hrem : remove ⟨.channel, t.first + 2⟩ (channelHeap t h 2 2) = sessionHeap t h 2 2 := by
    simp [channelHeap, sessionHeap, remove_cons, remove_of_not_mem hb.withLib.channel,
      Numbers.channelCell, Numbers.sessionCell, Numbers.socketCell]
  refine Drops.last [] (c := t.channelCell 1)
    (by simp [channelHeap, cellAt_cons, Numbers.channelCell]) (by simp [Numbers.channelCell]) ?_
  rw [hrem]
  exact hb.drop_session 0 2

/-! ## The bodies -/

theorem loginThen_denied (hb : Base t h) (hl : (loginCalls account r t.toHandles).2 = false)
    (handshake list password rest : M α) (nextHandle nextObject : ℕ) (ptr : Option ℕ) :
    ∃ stop ∈ [handshake, list, password], ∀ res m',
      Runs recorder stop ⟨sessionHeap t h 1 2, nextHandle, nextObject, ptr⟩ res [] m' →
      Runs recorder (loginThen account r handshake list password rest t.first (t.first + 1))
        ⟨bodyHeap t h, nextHandle, nextObject, ptr⟩ res
          (loginCalls account r t.toHandles).1 m' := by
  have hs := cellAt_session t h 1 2
  have hhandshake := handshake_runs hb r.handshake nextHandle nextObject ptr
  have hlist := isPasswordAuthSupported_runs
    (m := ⟨sessionHeap t h 1 2, nextHandle, nextObject, ptr⟩) hs account.username r
  have hpass := passwordAuth_runs (m := ⟨sessionHeap t h 1 2, nextHandle, nextObject, ptr⟩) hs
    account r.password
  by_cases h1 : r.handshake = 0
  · by_cases h2 : offered r = true
    · have h3 : r.password ≠ 0 := by simpa [loginCalls, h1, h2] using hl
      refine ⟨password, by simp, fun res m' hstop => ?_⟩
      refine (hhandshake.bind (Runs.ite_false (by simp [h1]) _ (hlist.bind (Runs.ite_false
        (by simp [h2]) _ (hpass.bind (Runs.ite_true (by simp [h3]) hstop _)))))).congr ?_ rfl
      simp [loginCalls, h1, h2, Numbers.sessionCell, Wrapper.handle]
    · refine ⟨list, by simp, fun res m' hstop => ?_⟩
      refine (hhandshake.bind (Runs.ite_false (by simp [h1]) _ (hlist.bind (Runs.ite_true
        (by simp [h2]) hstop _)))).congr ?_ rfl
      simp [loginCalls, h1, h2, Numbers.sessionCell, Wrapper.handle]
  · refine ⟨handshake, by simp, fun res m' hstop => ?_⟩
    refine (hhandshake.bind (Runs.ite_true (by simp [h1]) hstop _)).congr ?_ rfl
    simp [loginCalls, h1]

theorem loginThen_passed {rest : M α} {res : Except Exn α} {calls : Trace} {m' : Memory}
    (hb : Base t h) (hl : (loginCalls account r t.toHandles).2 = true)
    (handshake list password : M α)
    (hrest : Runs recorder rest ⟨sessionHeap t h 1 2, nextHandle, nextObject, ptr⟩ res calls m') :
    Runs recorder (loginThen account r handshake list password rest t.first (t.first + 1))
      ⟨bodyHeap t h, nextHandle, nextObject, ptr⟩ res
        ((loginCalls account r t.toHandles).1 ++ calls) m' := by
  have hs := cellAt_session t h 1 2
  have hhandshake := handshake_runs hb r.handshake nextHandle nextObject ptr
  have hlist := isPasswordAuthSupported_runs
    (m := ⟨sessionHeap t h 1 2, nextHandle, nextObject, ptr⟩) hs account.username r
  have hpass := passwordAuth_runs (m := ⟨sessionHeap t h 1 2, nextHandle, nextObject, ptr⟩) hs
    account r.password
  obtain ⟨h1, h2, h3⟩ := loginCalls_snd.mp hl
  refine (hhandshake.bind (Runs.ite_false (by simp [h1]) _ (hlist.bind (Runs.ite_false
    (by simp [h2]) _ (hpass.bind (Runs.ite_false (by simp [h3]) _ hrest)))))).congr ?_ rfl
  simp [loginCalls, h1, h2, Numbers.sessionCell, Wrapper.handle]

theorem cellAt_channel (t : Numbers) (h : Objects) (n k : ℕ) :
    cellAt (channelHeap t h n k) ⟨.channel, t.first + 2⟩ = some (t.channelCell 1) := by
  simp [channelHeap, cellAt_cons, Numbers.channelCell]

/-- Opening the channel fails in both programs alike. -/
theorem oldOpen_denied (hb : Base t h) (hr : r.channel = false) (nextHandle nextObject : ℕ)
    (ptr : Option ℕ) :
    ∃ e, Runs recorder (oldOpen r (t.first + 1))
      ⟨sessionHeap t h 1 2, nextHandle, nextObject, ptr⟩ (.error e)
      [.channelOpenSession t.session none] ⟨sessionHeap t h 1 2, nextHandle, nextObject, ptr⟩ := by
  obtain ⟨e, he⟩ := newChannel_error hb hr nextHandle nextObject ptr
  exact ⟨e, he.bind_error _⟩

theorem newOpen_denied (hb : Base t h) (hr : r.channel = false) (ssh nextHandle nextObject : ℕ)
    (ptr : Option ℕ) :
    ∃ e, Runs recorder (newOpen ssh r (t.first + 1))
      ⟨sessionHeap t h 1 2, nextHandle, nextObject, ptr⟩ (.error e)
      [.channelOpenSession t.session none] ⟨sessionHeap t h 1 2, nextHandle, nextObject, ptr⟩ := by
  obtain ⟨e, he⟩ := newChannel_error hb hr nextHandle nextObject ptr
  exact ⟨e, he.bind_error _⟩

theorem oldOpen_failed (hb : Base t h) (hr : r.channel = true)
    (hs : (shellCalls r t.toHandles).2 = false) (ptr : Option ℕ) :
    ∃ e, Runs recorder (oldOpen r (t.first + 1)) ⟨sessionHeap t h 1 2, t.channel, t.first + 2, ptr⟩
      (.error e) (.channelOpenSession t.session (some t.channel) ::
        (shellCalls r t.toHandles).1 ++ [.channelFree (some t.channel)])
      ⟨sessionHeap t h 1 2, t.channel + 1, t.first + 3, ptr⟩ := by
  obtain ⟨e, he⟩ := shell_error (m := ⟨channelHeap t h 2 2, t.channel + 1, t.first + 3, ptr⟩)
    (cellAt_channel t h 2 2) hs
  refine ⟨e, (newChannel_ok hb hr).bind (Runs.unwinding_error (he.bind_error _) (drop_changes ?_))⟩
  exact hb.close_channel

theorem oldOpen_ok (hb : Base t h) (hr : r.channel = true)
    (hs : (shellCalls r t.toHandles).2 = true) (ptr : Option ℕ) :
    Runs recorder (oldOpen r (t.first + 1)) ⟨sessionHeap t h 1 2, t.channel, t.first + 2, ptr⟩
      (.ok (some (t.first + 2)))
      (.channelOpenSession t.session (some t.channel) :: (shellCalls r t.toHandles).1)
      ⟨channelHeap t h 2 2, t.channel + 1, t.first + 3, ptr⟩ := by
  have hshell := shell_ok (m := ⟨channelHeap t h 2 2, t.channel + 1, t.first + 3, ptr⟩)
    (cellAt_channel t h 2 2) hs
  refine ((newChannel_ok hb hr).bind (Runs.unwinding_ok (hshell.bind
    (Runs.pure (some (t.first + 2)))))).congr ?_ rfl
  simp

theorem assignChannel_runs {ssh : ℕ}
    (hssh : cellAt h ⟨.ssh, ssh⟩ = some ⟨⟨.ssh, ssh⟩, 1, .ssh none⟩)
    (n k : ℕ) : Runs recorder (SSH.assignChannel ssh (some (t.first + 2)))
      ⟨channelHeap t h n k, nextHandle, nextObject, ptr⟩ (.ok ()) []
      ⟨channelHeap t (setObj ⟨.ssh, ssh⟩ (.ssh (some (t.first + 2))) h) n k, nextHandle, nextObject,
        ptr⟩ := by
  have hview := objectAt_runs (m := ⟨channelHeap t h n k, nextHandle, nextObject, ptr⟩) ⟨.ssh, ssh⟩
  have hcell : cellAt (channelHeap t h n k) ⟨.ssh, ssh⟩ = some ⟨⟨.ssh, ssh⟩, 1, .ssh none⟩ := by
    simp [channelHeap, sessionHeap, cellAt_cons, cellAt_retain_of_ne, hssh, Numbers.channelCell,
      Numbers.sessionCell, Numbers.socketCell]
  rw [hcell] at hview
  refine hview.bind (Runs.congr ((Runs.update (overwrite_changes _ _)).bind (Runs.pure ())) rfl ?_)
  simp [channelHeap, sessionHeap, setObj_cons, setObj_retain, Numbers.channelCell,
    Numbers.sessionCell, Numbers.socketCell]

theorem newOpen_failed {ssh : ℕ} (hb : Base t h)
    (hssh : cellAt h ⟨.ssh, ssh⟩ = some ⟨⟨.ssh, ssh⟩, 1, .ssh none⟩) (hr : r.channel = true)
    (hs : (shellCalls r t.toHandles).2 = false) (ptr : Option ℕ) :
    ∃ e, Runs recorder (newOpen ssh r (t.first + 1))
      ⟨sessionHeap t h 1 2, t.channel, t.first + 2, ptr⟩ (.error e)
      (.channelOpenSession t.session (some t.channel) :: (shellCalls r t.toHandles).1)
      ⟨channelHeap t (setObj ⟨.ssh, ssh⟩ (.ssh (some (t.first + 2))) h) 2 2, t.channel + 1,
        t.first + 3, ptr⟩ := by
  obtain ⟨e, he⟩ := shell_error
    (m := ⟨channelHeap t (setObj ⟨.ssh, ssh⟩ (.ssh (some (t.first + 2))) h) 2 2,
    t.channel + 1, t.first + 3, ptr⟩) (cellAt_channel t _ 2 2) hs
  exact ⟨e, (newChannel_ok hb hr).bind ((assignChannel_runs hssh 2 2).bind (he.bind_error _))⟩

theorem newOpen_ok {ssh : ℕ} (hb : Base t h)
    (hssh : cellAt h ⟨.ssh, ssh⟩ = some ⟨⟨.ssh, ssh⟩, 1, .ssh none⟩) (hr : r.channel = true)
    (hs : (shellCalls r t.toHandles).2 = true) (ptr : Option ℕ) :
    Runs recorder (newOpen ssh r (t.first + 1))
      ⟨sessionHeap t h 1 2, t.channel, t.first + 2, ptr⟩ (.ok ssh)
      (.channelOpenSession t.session (some t.channel) :: (shellCalls r t.toHandles).1)
      ⟨channelHeap t (setObj ⟨.ssh, ssh⟩ (.ssh (some (t.first + 2))) h) 2 2, t.channel + 1,
        t.first + 3, ptr⟩ := by
  have hshell := shell_ok
    (m := ⟨channelHeap t (setObj ⟨.ssh, ssh⟩ (.ssh (some (t.first + 2))) h) 2 2,
    t.channel + 1, t.first + 3, ptr⟩) (cellAt_channel t _ 2 2) hs
  refine ((newChannel_ok hb hr).bind ((assignChannel_runs hssh 2 2).bind (hshell.bind
    (Runs.pure ssh)))).congr ?_ rfl
  simp

end Methods

end CloudSsh.ConnectionAttempts
