import CloudSsh.RecordedPrograms
import CloudSsh.PublicOperations

/-!
# The operations call by call

No operation looks at the calls made before it: what it does, and which calls it makes,
depends on the objects, the numbers to be handed out next and the static `Libssh2::ptr`.
-/
namespace CloudSsh.CallByCall
open CountedHeap ScopedPrograms RecordedPrograms LibraryCalls WrapperObjects WrapperClasses
open PublicOperations

/-- The world without the calls made so far. -/
structure Memory where
  heap : Objects
  nextHandle : ℕ
  nextObject : ℕ
  ptr : Option ℕ

def recorder : Recorder World Memory Call where
  core w := ⟨w.heap, w.nextHandle, w.nextObject, w.ptr⟩
  record w := traceOf w.log

variable {α : Type} {a : Addr} {o : Wrapper} {x : Call} {m : Memory}

/-- The calls that a program makes in a world. -/
def callsBy (p : M α) (w : World) : Trace := (traceOf (p w).2.log).drop (traceOf w.log).length

theorem callsBy_of_runs {p : M α} {w : World} {r : Except Exn α} {calls : Trace} {m' : Memory}
    (h : Runs recorder p (recorder.core w) r calls m') : (p w).1 = r ∧ callsBy p w = calls := by
  obtain ⟨hres, -, hrec⟩ := h w rfl
  refine ⟨hres, ?_⟩
  rw [callsBy, show traceOf (p w).2.log = traceOf w.log ++ calls from hrec, List.drop_left]

/-! ## The calls of the releases -/

/-- Dropping the pointers makes these calls and leaves these objects. -/
def Drops (pending : List Addr) (h : Objects) (calls : Trace) (h' : Objects) : Prop :=
  (release layout pending h).1 = h' ∧ traceOf (release layout pending h).2 = calls

namespace Drops

variable {pending : List Addr} {h h' : Objects} {calls : Trace} {c : Cell Addr Wrapper}

theorem nil (h : Objects) : Drops [] h [] h := by simp [Drops, release_nil, traceOf]

theorem last (calls : Trace) (hc : cellAt h a = some c) (h1 : c.count ≤ 1)
    (hrest : Drops (c.obj.members ++ pending) (remove a h) calls h') :
    Drops (a :: pending) h (c.obj.destructor ++ calls) h' := by
  have hbody : traceOf ((layout.body c.obj).map (h, ·)) = c.obj.destructor := by
    simp [traceOf, layout]
  rw [Drops, release_cons, dropOne_last hc h1]
  refine ⟨hrest.1, ?_⟩
  rw [← hrest.2, ← hbody]
  exact List.map_append

theorem shared (hc : cellAt h a = some c) (h1 : ¬ c.count ≤ 1)
    (hrest : Drops pending (forget a h) calls h') : Drops (a :: pending) h calls h' := by
  rw [Drops, release_cons, dropOne_shared hc h1]
  exact hrest

end Drops

/-! ## What the language does -/

theorem issue_changes (x : Call) : Changes recorder (World.onStore (Store.issue x)) m [x] m := by
  rintro w rfl
  exact ⟨rfl, List.map_append⟩

theorem obtain_changes (x : Call) : Changes recorder (World.onStore (Store.obtain x)) m [x]
    { m with nextHandle := m.nextHandle + 1 } := by
  rintro w rfl
  exact ⟨rfl, List.map_append⟩

theorem share_changes (a : Addr) : Changes recorder (World.onStore (Store.share a)) m []
    { m with heap := retain a m.heap } := by
  rintro w rfl
  exact ⟨rfl, (List.append_nil _).symm⟩

theorem overwrite_changes (a : Addr) (o : Wrapper) :
    Changes recorder (World.onStore (Store.overwrite a o)) m []
      { m with heap := setObj a o m.heap } := by
  rintro w rfl
  exact ⟨rfl, (List.append_nil _).symm⟩

theorem drop_changes {calls : Trace} {h' : Objects} (hd : Drops [a] m.heap calls h') :
    Changes recorder (World.onStore (Store.drop a)) m calls { m with heap := h' } := by
  rintro w rfl
  obtain ⟨rfl, rfl⟩ := hd
  exact ⟨rfl, List.map_append⟩

theorem dropChange_framed (a : Addr) :
    FramedChange recorder (World.onStore (Store.drop a)) := fun _ =>
  ⟨_, _, drop_changes ⟨rfl, rfl⟩⟩

theorem issue_runs (x : Call) : Runs recorder (issue x) m (.ok ()) [x] m :=
  .update (issue_changes x)

theorem share_runs (a : Addr) :
    Runs recorder (share a) m (.ok ()) [] { m with heap := retain a m.heap } :=
  .update (share_changes a)

theorem drop_runs {calls : Trace} {h' : Objects} (hd : Drops [a] m.heap calls h') :
    Runs recorder (drop a) m (.ok ()) calls { m with heap := h' } := .update (drop_changes hd)

theorem place_runs (o : Wrapper) : Runs recorder (place o) m (.ok m.nextObject) []
    { m with
      heap := ⟨⟨o.kind, m.nextObject⟩, 1, o⟩ :: m.heap
      nextObject := m.nextObject + 1 } := by
  rintro w rfl
  exact ⟨rfl, rfl, (List.append_nil _).symm⟩

theorem acquire_granted (x : Option ℕ → Call) :
    Runs recorder (acquire true x) m (.ok (some m.nextHandle)) [x (some m.nextHandle)]
      { m with nextHandle := m.nextHandle + 1 } := by
  rintro w rfl
  exact ⟨rfl, obtain_changes (x (some w.nextHandle)) w rfl⟩

theorem acquire_denied (x : Option ℕ → Call) :
    Runs recorder (acquire false x) m (.ok none) [x none] m := by
  rintro w rfl
  exact ⟨rfl, issue_changes (x none) w rfl⟩

theorem objectAt_runs (a : Addr) :
    Runs recorder (view (objectAt a) : M (Option Wrapper)) m
      (.ok ((cellAt m.heap a).map Cell.obj)) [] m := by
  apply Runs.view
  rintro w rfl
  rfl

theorem handleAt_runs (a : Addr) : Runs recorder (view (handleAt a) : M (Option ℕ)) m
    (.ok (((cellAt m.heap a).map Cell.obj).bind Wrapper.handle)) [] m := by
  apply Runs.view
  rintro w rfl
  rfl

theorem ptr_runs : Runs recorder (view World.ptr : M (Option ℕ)) m (.ok m.ptr) [] m := by
  apply Runs.view
  rintro w rfl
  rfl

theorem setPtr_runs (p : Option ℕ) :
    Runs recorder (update fun w : World => { w with ptr := p } : M Unit) m (.ok ()) []
      { m with ptr := p } := by
  apply Runs.update
  rintro w rfl
  exact ⟨rfl, (List.append_nil _).symm⟩

theorem holding_runs {p : M α} {r : Except Exn α} {calls calls' : Trace}
    {h' : Objects} (m₁ : Memory)
    (hp : Runs recorder p m r calls m₁) (hd : Drops [a] m₁.heap calls' h') :
    Runs recorder (holding a p) m r (calls ++ calls') { m₁ with heap := h' } :=
  hp.ensuring (drop_changes hd)

theorem withCopy_runs {p : M α} {r : Except Exn α} {calls calls' : Trace} {h' : Objects}
    (m₁ : Memory) (hp : Runs recorder p { m with heap := retain a m.heap } r calls m₁)
    (hd : Drops [a] m₁.heap calls' h') :
    Runs recorder (withCopy a p) m r (calls ++ calls') { m₁ with heap := h' } :=
  (share_runs a).bind (holding_runs m₁ hp hd)

/-! ## No operation looks at the calls -/

theorem issue_framed (x : Call) : Framed recorder (issue x) := fun _ => ⟨_, _, _, issue_runs x⟩

theorem share_framed (a : Addr) : Framed recorder (share a) := fun _ => ⟨_, _, _, share_runs a⟩

theorem drop_framed (a : Addr) : Framed recorder (drop a) := .update (dropChange_framed a)

theorem place_framed (o : Wrapper) : Framed recorder (place o) := fun _ => ⟨_, _, _, place_runs o⟩

theorem acquire_framed (granted : Bool) (x : Option ℕ → Call) :
    Framed recorder (acquire granted x) := by
  cases granted with
  | false => exact fun _ => ⟨_, _, _, acquire_denied x⟩
  | true => exact fun _ => ⟨_, _, _, acquire_granted x⟩

theorem objectAt_framed (a : Addr) : Framed recorder (view (objectAt a) : M (Option Wrapper)) :=
  fun _ => ⟨_, _, _, objectAt_runs a⟩

theorem handleAt_framed (a : Addr) : Framed recorder (view (handleAt a) : M (Option ℕ)) :=
  fun _ => ⟨_, _, _, handleAt_runs a⟩

theorem ptr_framed : Framed recorder (view World.ptr : M (Option ℕ)) := fun _ => ⟨_, _, _, ptr_runs⟩

theorem setPtr_framed (p : Option ℕ) :
    Framed recorder (update fun w : World => { w with ptr := p } : M Unit) :=
  fun _ => ⟨_, _, _, setPtr_runs p⟩

theorem holding_framed {p : M α} (a : Addr) (hp : Framed recorder p) :
    Framed recorder (holding a p) := hp.ensuring (dropChange_framed a)

theorem withCopy_framed {p : M α} (a : Addr) (hp : Framed recorder p) :
    Framed recorder (withCopy a p) := .bind (share_framed a) fun _ => holding_framed a hp

theorem assign_framed (a : Addr) (o : Wrapper) (old : Option Addr) :
    Framed recorder (assign a o old) := by
  refine .bind (fun _ => ⟨_, _, _, .update (overwrite_changes a o)⟩) fun _ => ?_
  cases old with
  | none => exact .pure ()
  | some b => exact drop_framed b

theorem create_framed (rc : Int) : Framed recorder (Libssh2.create rc) := by
  refine .bind ptr_framed fun p => ?_
  cases p with
  | some n => exact .bind (share_framed _) fun _ => .pure n
  | none =>
    refine .bind (acquire_framed _ _) fun lib => ?_
    cases lib with
    | none => exact .raise _
    | some lib =>
      refine .bind (place_framed _) fun n => .bind (setPtr_framed _) fun _ => ?_
      exact .bind (share_framed _) fun _ => .pure n

theorem newSession_framed (lib : ℕ) (granted : Bool) :
    Framed recorder (Libssh2.newSession lib granted) := by
  refine withCopy_framed _ (.bind (handleAt_framed _) fun _ => ?_)
  exact .bind (acquire_framed _ _) fun _ => .bind (share_framed _) fun _ => place_framed _

theorem connectOn_framed (sock : Option ℕ) (hostaddr : Bytes) (port : UInt16) (net : Network) :
    Framed recorder (Socket.connectOn sock hostaddr port net) :=
  .bind (issue_framed _) fun _ => .raiseIf _

theorem socketCreate_framed (hostaddr : Option Bytes) (port : Int16) (net : Network)
    (domain type protocol : Int) :
    Framed recorder (Socket.create hostaddr port net domain type protocol) := by
  refine .bind (acquire_framed _ _) fun fd => ?_
  cases fd with
  | none => exact .raise _
  | some fd =>
    cases hostaddr with
    | none => exact .bind (.pure ()) fun _ => place_framed _
    | some host => exact .bind (connectOn_framed _ _ _ _) fun _ => place_framed _

theorem openOn_framed (s : ℕ) (granted : Bool) (x : Option ℕ → Option ℕ → Call)
    (object : Option ℕ → Wrapper) (what : String) :
    Framed recorder (openOn s granted x object what) := by
  refine withCopy_framed _ (.bind (share_framed _) fun _ => .bind (handleAt_framed _) fun _ => ?_)
  refine .bind (acquire_framed _ _) fun h => ?_
  cases h with
  | none => exact .bind (drop_framed _) fun _ => .raise _
  | some h => exact place_framed _

theorem handshake_framed (s sock : ℕ) (rc : Int) :
    Framed recorder (Session.handshake s sock rc) := by
  refine withCopy_framed _ (.bind (objectAt_framed _) fun o => ?_)
  rcases o with _ | o
  · exact .pure false
  cases o with
  | session h lib old =>
    refine .bind (share_framed _) fun _ => .bind (assign_framed _ _ _) fun _ => ?_
    exact .bind (handleAt_framed _) fun _ => .bind (issue_framed _) fun _ => .pure _
  | _ => exact .pure false

theorem getSupportedAuthList_framed (s : ℕ) (username : Bytes) (ret : Option Bytes) :
    Framed recorder (Session.getSupportedAuthList s username ret) :=
  .bind (handleAt_framed _) fun _ => .bind (issue_framed _) fun _ => .pure ret

theorem isAuthSupported_framed (needle : Bytes) (s : ℕ) (username : Bytes) (ret : Option Bytes)
    (onNull : Bool) : Framed recorder (Session.isAuthSupported needle s username ret onNull) := by
  refine .bind (getSupportedAuthList_framed s username ret) fun list => ?_
  refine .bind (issue_framed _) fun _ => ?_
  cases list with
  | none => exact .pure onNull
  | some list => exact .pure _

theorem method_framed (m : SessionMethod) (s : ℕ) (ret : Int) :
    Framed recorder (Session.method m s ret) :=
  .bind (handleAt_framed _) fun _ => .bind (issue_framed _) fun _ => .pure ret

theorem passwordAuth_framed (s : ℕ) (username password : Bytes) (rc : Int) :
    Framed recorder (Session.passwordAuth s username password rc) :=
  .bind (handleAt_framed _) fun _ => .bind (issue_framed _) fun _ => .pure _

theorem callOn_framed (f : ChannelFunction) (s : ℕ) (ret : Int) :
    Framed recorder (Channel.callOn f s ret) :=
  .bind (handleAt_framed _) fun _ => .bind (issue_framed _) fun _ => .pure ret

theorem shellOn_framed (terminal : ChannelFunction) (s : ℕ) (pty shell : Int) :
    Framed recorder (Channel.shellOn terminal s pty shell) := by
  refine .bind (callOn_framed _ _ _) fun _ => .bind (.raiseIf _) fun _ => ?_
  exact .bind (callOn_framed _ _ _) fun _ => .raiseIf _

theorem assignChannel_framed (ssh : ℕ) (channel : Option ℕ) :
    Framed recorder (SSH.assignChannel ssh channel) := by
  refine .bind (objectAt_framed _) fun o => ?_
  rcases o with _ | o
  · exact .pure ()
  cases o with
  | ssh old => exact assign_framed _ _ _
  | _ => exact .pure ()

theorem construct_framed (account : Account) (r : Answers) :
    Framed recorder (SSH.construct account r) := by
  refine .bind (place_framed _) fun ssh => .unwinding ?_ (dropChange_framed _)
  refine .bind (create_framed _) fun lib => holding_framed _ ?_
  refine .bind (socketCreate_framed _ _ _ _ _ _) fun sock => holding_framed _ ?_
  refine .bind (newSession_framed _ _) fun s => holding_framed _ ?_
  refine .bind (handshake_framed _ _ _) fun _ => .bind (.raiseIf _) fun _ => ?_
  refine .bind (isAuthSupported_framed _ _ _ _ _) fun _ => .bind (.raiseIf _) fun _ => ?_
  refine .bind (passwordAuth_framed _ _ _ _) fun _ => .bind (.raiseIf _) fun _ => ?_
  refine .bind (openOn_framed _ _ _ _ _) fun c => .bind (assignChannel_framed _ _) fun _ => ?_
  exact .bind (shellOn_framed _ _ _ _) fun _ => .pure ssh

theorem connectToSsh_framed (account : Account) (r : Answers) :
    Framed recorder (connectToSsh account r) := by
  refine .bind (create_framed _) fun lib => holding_framed _ ?_
  refine .bind (socketCreate_framed _ _ _ _ _ _) fun sock => holding_framed _ ?_
  refine .bind (newSession_framed _ _) fun s => holding_framed _ ?_
  refine .bind (handshake_framed _ _ _) fun _ => .ite (.pure none) ?_
  refine .bind (isAuthSupported_framed _ _ _ _ _) fun _ => .ite (.pure none) ?_
  refine .bind (passwordAuth_framed _ _ _ _) fun _ => .ite (.pure none) ?_
  refine .bind (openOn_framed _ _ _ _ _) fun c => .unwinding ?_ (dropChange_framed _)
  exact .bind (shellOn_framed _ _ _ _) fun _ => .pure (some c)

theorem resetPtr_framed : Framed recorder resetPtr := by
  refine .bind ptr_framed fun p => ?_
  cases p with
  | none => exact .pure ()
  | some n => exact .bind (setPtr_framed _) fun _ => drop_framed _

theorem shareAll_framed (as : List Addr) : Framed recorder (shareAll as) := by
  induction as with
  | nil => exact .pure ()
  | cons a as ih => exact .bind (share_framed a) fun _ => ih

theorem handlesOf_framed {p : M ℕ} (kind : Kind) (hp : Framed recorder p) :
    Framed recorder (handlesOf kind p) := .bind hp fun _ => .pure _

theorem noHandles_framed {p : M α} (hp : Framed recorder p) : Framed recorder (noHandles p) :=
  .bind hp fun _ => .pure _

theorem program_framed (o : Operation) : Framed recorder o.program := by
  cases o with
  | create rc => exact handlesOf_framed _ (create_framed rc)
  | resetPtr => exact noHandles_framed resetPtr_framed
  | socketCreate hostaddr port net domain type protocol =>
    exact handlesOf_framed _ (socketCreate_framed hostaddr port net domain type protocol)
  | socketConnect s hostaddr port net =>
    exact noHandles_framed (.bind (handleAt_framed _) fun _ => connectOn_framed _ _ _ _)
  | newSession lib granted => exact handlesOf_framed _ (newSession_framed lib granted)
  | handshake s sock rc => exact noHandles_framed (handshake_framed s sock rc)
  | newChannel | newChannelTcpip | newListener | newListenerEx =>
    exact handlesOf_framed _ (openOn_framed _ _ _ _ _)
  | sessionMethod f s ret => exact noHandles_framed (method_framed f s ret)
  | getSupportedAuthList s username ret =>
    exact noHandles_framed (getSupportedAuthList_framed s username ret)
  | isPasswordAuthSupported | isPubkeyAuthSupported =>
    exact noHandles_framed (isAuthSupported_framed _ _ _ _ _)
  | passwordAuth s username password rc =>
    exact noHandles_framed (passwordAuth_framed s username password rc)
  | channelMethod f s ret => exact noHandles_framed (callOn_framed _ s ret)
  | shell | shellEx => exact noHandles_framed (shellOn_framed _ _ _ _)
  | connect account r => exact handlesOf_framed _ (construct_framed account r)
  | connectToSsh account r => exact .bind (connectToSsh_framed account r) fun _ => .pure _
  | sshChannel ssh =>
    refine .bind (objectAt_framed _) fun o => ?_
    rcases o with _ | o
    · exact .pure []
    rcases o with _ | _ | _ | _ | _ | c
    case ssh =>
      cases c with
      | none => exact .pure []
      | some c => exact .bind (share_framed _) fun _ => .pure _
    all_goals exact .pure []
  | assignChannel ssh c =>
    exact .bind (shareAll_framed _) fun _ => noHandles_framed (assignChannel_framed ssh c)
  | copyHandle a => exact .bind (share_framed a) fun _ => .pure _
  | dropHandle a => exact noHandles_framed (drop_framed a)

theorem copyObject_framed (a : Addr) : Framed recorder (copyObject a) := by
  refine .bind (objectAt_framed a) fun o => ?_
  cases o with
  | none => exact .pure none
  | some o => exact .bind (shareAll_framed _) fun _ => .bind (place_framed o) fun _ => .pure _

theorem assignObject_framed (a b : Addr) : Framed recorder (assignObject a b) := by
  refine .bind (objectAt_framed a) fun o => .bind (objectAt_framed b) fun o' => ?_
  rcases o with _ | o
  · exact .pure ()
  rcases o' with _ | o'
  · cases o <;> exact .pure ()
  cases o <;> cases o' <;> try exact .pure ()
  case socket.socket => exact assign_framed _ _ _
  case session.session =>
    refine .bind (share_framed _) fun _ => .bind (assign_framed _ _ _) fun _ => ?_
    exact .bind (shareAll_framed _) fun _ => assign_framed _ _ _
  case channel.channel | listener.listener =>
    exact .bind (share_framed _) fun _ => assign_framed _ _ _
  case ssh.ssh => exact .bind (shareAll_framed _) fun _ => assign_framed _ _ _

/-! ## Steps of the program -/

/-- The memory, the pointers that the program holds, and the calls so far. -/
structure Has (s : State) (m : Memory) (hs : List Addr) (tr : Trace) : Prop where
  core : recorder.core s.world = m
  handles : s.handles = hs
  trace : s.trace = tr

theorem Has.step {s : State} {hs new : List Addr} {tr calls : Trace} {m' : Memory} {o : Operation}
    (h : Has s m hs tr) (hp : ∀ a ∈ o.pointers, a ∈ hs) (hr : ∀ a ∈ o.receivers, a ∈ hs)
    (hrun : Runs recorder o.program m (.ok new) calls m') :
    Has (s.step o) m' (new ++ hs.diff o.spent) (tr ++ calls) := by
  obtain ⟨hres, hcore, htrace⟩ := hrun s.world h.core
  unfold State.step
  rw [if_pos ⟨h.handles ▸ hp, fun a ha => List.mem_append_left _ (h.handles ▸ hr a ha)⟩]
  rcases hw : o.program s.world with ⟨res, w⟩
  rw [hw] at hres hcore htrace
  obtain rfl : res = .ok new := hres
  exact ⟨hcore, by rw [← h.handles], htrace.trans (congrArg (· ++ calls) h.trace)⟩

/-- The states differ at most in the calls made so far. -/
structure Alike (s t : State) : Prop where
  core : recorder.core s.world = recorder.core t.world
  handles : s.handles = t.handles
  automatic : s.automatic = t.automatic

variable {s t : State}

theorem step_alike (h : Alike s t) (o : Operation) : ∃ xs, Alike (s.step o) (t.step o) ∧
    (s.step o).trace = s.trace ++ xs ∧ (t.step o).trace = t.trace ++ xs := by
  unfold State.step
  rw [h.handles, h.automatic]
  split
  · obtain ⟨xs, hres, hcore, hs, ht⟩ := (program_framed o).agree h.core
    refine ⟨xs, ?_⟩
    rcases hps : o.program s.world with ⟨r, w⟩
    rcases hpt : o.program t.world with ⟨r', w'⟩
    rw [hps, hpt] at hres hcore
    rw [hps] at hs
    rw [hpt] at ht
    obtain rfl : r = r' := hres
    cases r with
    | ok new => exact ⟨⟨hcore, rfl, rfl⟩, hs, ht⟩
    | error e => exact ⟨⟨hcore, rfl, rfl⟩, hs, ht⟩
  · exact ⟨[], h, by simp, by simp⟩

theorem objectStep_alike (h : Alike s t) (o : ObjectOperation) :
    ∃ xs, Alike (s.objectStep o) (t.objectStep o) ∧ (s.objectStep o).trace = s.trace ++ xs ∧
      (t.objectStep o).trace = t.trace ++ xs := by
  cases o with
  | through o => exact step_alike h o
  | copy a shared =>
    simp only [State.objectStep, h.handles, h.automatic]
    split
    · obtain ⟨xs, hres, hcore, hs, ht⟩ := (copyObject_framed a).agree h.core
      refine ⟨xs, ?_⟩
      rcases hps : copyObject a s.world with ⟨r, w⟩
      rcases hpt : copyObject a t.world with ⟨r', w'⟩
      rw [hps, hpt] at hres hcore
      rw [hps] at hs
      rw [hpt] at ht
      obtain rfl : r = r' := hres
      rcases r with e | _ | b
      · exact ⟨⟨hcore, rfl, rfl⟩, hs, ht⟩
      · exact ⟨⟨hcore, rfl, rfl⟩, hs, ht⟩
      · cases shared <;> exact ⟨⟨hcore, rfl, rfl⟩, hs, ht⟩
    · exact ⟨[], h, by simp, by simp⟩
  | assign kind a b =>
    simp only [State.objectStep, h.handles, h.automatic]
    split
    · obtain ⟨xs, -, hcore, hs, ht⟩ := (assignObject_framed ⟨kind, a⟩ ⟨kind, b⟩).agree h.core
      exact ⟨xs, ⟨hcore, rfl, rfl⟩, hs, ht⟩
    · exact ⟨[], h, by simp, by simp⟩
  | leave a =>
    simp only [State.objectStep, h.automatic]
    split
    · obtain ⟨xs, -, hcore, hs, ht⟩ := (drop_framed a).agree h.core
      exact ⟨xs, ⟨hcore, h.handles, rfl⟩, hs, ht⟩
    · exact ⟨[], h, by simp, by simp⟩

end CloudSsh.CallByCall
