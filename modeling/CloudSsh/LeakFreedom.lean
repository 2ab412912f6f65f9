import CloudSsh.Confinement
import CloudSsh.ObjectCopies

/-!
# Nothing gets lost

What was handed out and not given back is owned by an object, with one exception: the
descriptor of a `Socket` whose constructor is refused the connection. Along the steps an
owned resource stays owned until it is released, so that only the programs that ask for a
descriptor have to be looked at.
-/
namespace CloudSsh.LeakFreedom
open CountedHeap ScopedPrograms ResourceTraces Calls OwnershipLedger LibraryCalls WrapperObjects
open WrapperClasses PublicOperations OwnershipSteps OperationSteps ObjectCopies Confinement Relation

variable {c c' : Config} {r : Resource} {α β : Type}

/-! ## Owned resources along the steps -/

theorem step_log (h : Step c c') : c.log <+: c'.log := by
  cases h with
  | perm | share | adopt | relink => exact List.prefix_refl _
  | call | obtain | create | give | drop => exact List.prefix_append _ _

theorem steps_log (h : Steps c c') : c.log <+: c'.log := by
  induction h with
  | refl => exact List.prefix_refl _
  | tail _ h ih => exact ih.trans (step_log h)

theorem released_mono {log log' : Log} (hlog : log <+: log') (h : Released (traceOf log) r) :
    Released (traceOf log') r := by
  obtain ⟨x, hx, he⟩ := h
  exact ⟨x, (hlog.map Prod.snd).subset hx, he⟩

/-- What an object owns it goes on owning, unless its last pointer is dropped. -/
theorem step_held (h : Step c c') (hs : Sound c) (hr : Held ownership (objects c.heap) r) :
    Held ownership (objects c'.heap) r ∨ Released c'.trace r := by
  obtain ⟨p, hp, hpr⟩ := hr
  cases h with
  | perm | call | obtain | give => exact .inl ⟨p, hp, hpr⟩
  | share =>
    left
    simp only [objects_retain]
    exact ⟨p, hp, hpr⟩
  | create hb hx hid ho hon hadm hh =>
    left
    simp only [Store.place, objects_cons, hh]
    exact ⟨p, List.mem_cons_of_mem _ hp, hpr⟩
  | adopt => exact .inl ⟨p, List.mem_cons_of_mem _ hp, hpr⟩
  | @relink a d o new old rest hb hd hkind hraw =>
    have hnew : (a, o) ∈ objects (setObj a o c.heap) :=
      mem_objects_setObj.mpr (.inl ⟨rfl, mem_addrs.mpr ⟨_, mem_objects_of_cellAt hd, rfl⟩⟩)
    by_cases hpa : p.1 = a
    · obtain rfl := eq_of_mem_objects hs.balanced.nodup hd hp hpa
      exact .inl ⟨_, hnew, hraw.trans hpr⟩
    · exact .inl ⟨p, mem_objects_setObj.mpr (.inr ⟨hp, hpa⟩), hpr⟩
  | @drop a rest hroots =>
    cases hd : cellAt c.heap a with
    | none =>
      left
      simp only [dropOne_dangling hd]
      exact ⟨p, hp, hpr⟩
    | some d =>
      by_cases h1 : d.count ≤ 1
      · by_cases hpa : p.1 = a
        · -- the owner goes, and its destructor gives the resource back
          right
          obtain rfl := eq_of_mem_objects hs.balanced.nodup hd hp hpa
          have hraw : d.obj.raw = some r := hpr
          rcases destructor_cases d.obj with ⟨-, hnone⟩ | ⟨x, hx, -, heff⟩
          · rw [hraw] at hnone
            cases hnone
          · rw [hraw] at heff
            refine ⟨x, ?_, heff⟩
            simp [Config.trace, dropOne_last hd h1, layout, hx]
        · left
          simp only [dropOne_last hd h1]
          exact ⟨p, mem_objects_remove.mpr ⟨hp, hpa⟩, hpr⟩
      · left
        simp only [dropOne_shared hd h1, objects_forget]
        exact ⟨p, hp, hpr⟩

theorem steps_held (h : Steps c c') (hs : Sound c) (hr : Held ownership (objects c.heap) r) :
    Held ownership (objects c'.heap) r ∨ Released c'.trace r := by
  induction h with
  | refl => exact .inl hr
  | tail h' h ih =>
    rcases ih with ih | ih
    · exact step_held h ((Steps.objectSteps h').sound hs) ih
    · exact .inr (released_mono (step_log h) ih)

/-! ## Calls that hand out no descriptor -/

/-- The call hands out no descriptor. -/
def Quiet (x : Call) : Prop := ∀ fd on, effect x ≠ .acquire (.descriptor fd) on

theorem quiet_of_noSocket (x : Call) (hx : NoSocket x) : Quiet x := by
  intro fd on he
  rw [effect_eq] at he
  unfold Call.effect at he
  split at he
  case h_3 => exact hx _ _ _ _ rfl
  all_goals simp at he

theorem quiet_destructor {o : Wrapper} {x : Call} (hx : x ∈ o.destructor) : Quiet x := by
  apply quiet_of_noSocket
  cases o <;> simp_all [Wrapper.destructor, NoSocket]

theorem quiet_dropped (pending : List Addr) (h : Objects) :
    ∀ x ∈ traceOf (release layout pending h).2, Quiet x := by
  have := release_induction (L := layout)
    (P := fun _ _ log => ∀ x ∈ traceOf log, Quiet x) ?_ pending h [] (by simp [traceOf])
  · simpa using this
  · intro a pending h log hlog x hx
    rw [traceOf_append] at hx
    rcases List.mem_append.mp hx with hx | hx
    · exact hlog x hx
    cases hd : cellAt h a with
    | none => simp [dropOne_dangling hd, traceOf] at hx
    | some d =>
      by_cases h1 : d.count ≤ 1
      · rw [dropOne_last hd h1] at hx
        exact quiet_destructor (o := d.obj) (by simpa [traceOf, layout] using hx)
      · simp [dropOne_shared hd h1, traceOf] at hx

/-- None of the calls since `tr` has handed out a descriptor. -/
def QuietSince (tr : Trace) (w : World) : Prop :=
  ∃ calls, traceOf w.log = tr ++ calls ∧ ∀ x ∈ calls, Quiet x

theorem QuietSince.append {tr : Trace} {w w' : World} (h : QuietSince tr w) {calls : Trace}
    (hlog : traceOf w'.log = traceOf w.log ++ calls) (hcalls : ∀ x ∈ calls, Quiet x) :
    QuietSince tr w' := by
  obtain ⟨before, hbefore, hquiet⟩ := h
  refine ⟨before ++ calls, by rw [hlog, hbefore, List.append_assoc], ?_⟩
  intro x hx
  rcases List.mem_append.mp hx with hx | hx
  · exact hquiet x hx
  · exact hcalls x hx

/-- A program that asks for no descriptor. -/
def quiet : Limits := ⟨Quiet, fun _ => True, True⟩

theorem quietSince_closed (tr : Trace) : Closed quiet (QuietSince tr) where
  issue hx h := h.append List.map_append (List.forall_mem_singleton.mpr hx)
  obtain hx h := h.append List.map_append (List.forall_mem_singleton.mpr hx)
  share h := h
  place h := h
  overwrite _ h := h
  drop h := h.append List.map_append (quiet_dropped _ _)
  static _ h := h

theorem quiet_within (o : Operation) : Within quiet o := by
  cases o <;> trivial

/-! ## Every descriptor is accounted for -/

/-- While no object owned the descriptor, a `connect` on it failed. -/
def ConnectFailed (log : Log) (fd : ℕ) : Prop :=
  ∃ e ∈ log, (∃ sin ret, e.2 = .connect (some fd) sin ret ∧ ret ≠ 0) ∧
    ¬ Held ownership (objects e.1) (.descriptor fd)

/-- What has become of a descriptor. -/
def AccountedFor (w : World) (fd : ℕ) : Prop :=
  Released (traceOf w.log) (.descriptor fd) ∨ Held ownership (objects w.heap) (.descriptor fd) ∨
    ConnectFailed w.log fd

def Accounted (w : World) : Prop :=
  ∀ fd, Acquired (traceOf w.log) (.descriptor fd) → AccountedFor w fd

/-- Steps from `c` have led to this world, which accounts for its descriptors. -/
structure AccountedAt (c : Config) (rs : List Addr) (w : World) : Prop where
  here : At c rs w
  accounted : Accounted w

section Accounts

variable {rs : List Addr} {w w' : World} {a : Addr}

/-- Only the descriptors that are new have to be looked at. -/
theorem AccountedAt.along {rs' : List Addr} (h : AccountedAt c rs w)
    (h' : ∀ c, At c rs w → At c rs' w')
    (hnew : ∀ fd, Acquired (traceOf w'.log) (.descriptor fd) →
      Acquired (traceOf w.log) (.descriptor fd) ∨ AccountedFor w' fd) : AccountedAt c rs' w' := by
  have hs := h.here.sound
  have hsteps := (h' _ ⟨hs, .refl⟩).steps
  have hlog : w.log <+: w'.log := steps_log hsteps
  refine ⟨h' c h.here, fun fd hfd => ?_⟩
  rcases hnew fd hfd with hold | hnew
  · rcases h.accounted fd hold with hr | hheld | ⟨e, he, hfailed⟩
    · exact .inl (released_mono hlog hr)
    · rcases steps_held hsteps hs hheld with hheld | hr
      · exact .inr (.inl hheld)
      · exact .inl hr
    · exact .inr (.inr ⟨e, hlog.subset he, hfailed⟩)
  · exact hnew

theorem accounted_of_quiet {p : M α} {rs' : List Addr} {new : α → List Addr}
    (hat : ∀ c, Triple (At c rs) p (fun v => At c (new v)) fun _ => At c rs')
    (hquiet : Confined quiet p) :
    Triple (AccountedAt c rs) p (fun v => AccountedAt c (new v)) fun _ => AccountedAt c rs' := by
  intro w h
  have hat := fun c => hat c w
  have hquiet := hquiet _ (quietSince_closed (traceOf w.log)) w ⟨[], by simp, by simp⟩
  rcases hr : p w with ⟨res, w'⟩
  rw [hr] at hquiet
  simp only [hr] at hat
  have hnew : QuietSince (traceOf w.log) w' → ∀ fd, Acquired (traceOf w'.log) (.descriptor fd) →
      Acquired (traceOf w.log) (.descriptor fd) ∨ AccountedFor w' fd := by
    rintro ⟨calls, hlog, hcalls⟩ fd ⟨x, hx, on, he⟩
    rw [hlog] at hx
    rcases List.mem_append.mp hx with hx | hx
    · exact .inl ⟨x, hx, on, he⟩
    · exact absurd he (hcalls x hx fd on)
  cases res with
  | ok v => exact h.along hat (hnew hquiet)
  | error e => exact h.along hat (hnew hquiet)

theorem AccountedAt.drop (h : AccountedAt c (a :: rs) w) :
    AccountedAt c rs (w.onStore (Store.drop a)) := by
  have hdrop : Triple (AccountedAt c (a :: rs)) (WrapperObjects.drop a) (fun _ => AccountedAt c rs)
      fun _ => AccountedAt c rs := accounted_of_quiet (fun _ => drop_at) (.drop a)
  exact hdrop w h

theorem holding_accounted {p : M α} (new : α → List Addr)
    (h : Triple (AccountedAt c (a :: rs)) p (fun v => AccountedAt c (a :: new v))
      (fun _ => AccountedAt c (a :: rs))) :
    Triple (AccountedAt c (a :: rs)) (holding a p) (fun v => AccountedAt c (new v))
      (fun _ => AccountedAt c rs) :=
  Triple.ensuring h (fun _ _ h => h.drop) fun _ _ h => h.drop

theorem AccountedAt.asked {rs' : List Addr} {calls : Trace} (h : AccountedAt c rs w)
    (h' : ∀ c, At c rs w → At c rs' w') (hlog : traceOf w'.log = traceOf w.log ++ calls)
    (hcalls : ∀ fd, Acquired calls (.descriptor fd) → AccountedFor w' fd) :
    AccountedAt c rs' w' := by
  refine h.along h' fun fd ⟨x, hx, on, he⟩ => ?_
  rw [hlog] at hx
  rcases List.mem_append.mp hx with hx | hx
  · exact .inl ⟨x, hx, on, he⟩
  · exact .inr (hcalls fd ⟨x, hx, on, he⟩)

/-- The calls of a constructor that is given a descriptor. -/
private theorem eq_of_acquired {domain type protocol : Int} {n fd : ℕ} {rest : Trace}
    (hrest : ∀ x ∈ rest, effect x = .plain)
    (h : Acquired (Call.socket domain type protocol (some n) :: rest) (.descriptor fd)) :
    fd = n := by
  obtain ⟨x, hx, on, he⟩ := h
  rcases List.mem_cons.mp hx with rfl | hx
  · have hn : n = fd ∧ on = none := by simpa [effect_eq, Call.effect, eq_comm] using he
    exact hn.1.symm
  · rw [hrest x hx] at he
    cases he

/-- The constructor that throws because the connection is refused leaves a descriptor behind, but
one for which `connect` has failed. -/
theorem socketCreate_accounted (hostaddr : Option Bytes) (port : Int16) (net : Network)
    (domain type protocol : Int) :
    Triple (AccountedAt c rs) (Socket.create hostaddr port net domain type protocol)
      (fun n => AccountedAt c (⟨.socket, n⟩ :: rs)) (fun _ => AccountedAt c rs) := by
  intro w h
  have hat : ∀ c, At c rs w → _ := fun c => socketCreate_at hostaddr port net domain type protocol w
  obtain ⟨socket, inetAddr, ret⟩ := net
  cases socket with
  | false =>
    refine h.asked hat List.map_append ?_
    rintro fd ⟨x, hx, on, he⟩
    obtain rfl : x = .socket domain type protocol none := List.mem_singleton.mp hx
    cases he
  | true =>
    cases hostaddr with
    | none =>
      refine h.asked hat List.map_append fun fd hfd => ?_
      obtain rfl := eq_of_acquired (by simp) hfd
      exact .inr (.inl ⟨_, List.mem_cons_self, rfl⟩)
    | some host =>
      have hlog : ∀ (h h' : Objects) (x y : Call), traceOf (w.log ++ [(h, x)] ++ [(h', y)]) =
          traceOf w.log ++ [x, y] := by simp [traceOf]
      by_cases hret : ret = 0
      · subst hret
        refine h.asked hat (hlog _ _ _ _) fun fd hfd => ?_
        obtain rfl := eq_of_acquired (by simp [effect_eq, Call.effect]) hfd
        exact .inr (.inl ⟨_, List.mem_cons_self, rfl⟩)
      · have hthrown : Socket.create (some host) port ⟨true, inetAddr, ret⟩ domain type protocol w =
            (.error (.runtimeError "Failed to connect.\n"),
              (w.onStore (Store.obtain (.socket domain type protocol (some w.nextHandle)))).onStore
                (Store.issue (.connect (some w.nextHandle)
                  ⟨2, htons port.toUInt16, inetAddr host⟩ ret))) := by
          refine bind_error (p := Socket.connectOn (some w.nextHandle) host port.toUInt16 _)
            ?_ fun _ =>
            place (.socket (some w.nextHandle))
          unfold Socket.connectOn
          rw [raiseIf, if_pos hret]
          rfl
        rw [hthrown] at hat ⊢
        refine h.asked hat (hlog _ _ _ _) fun fd hfd => ?_
        obtain rfl := eq_of_acquired (by simp [effect_eq, Call.effect]) hfd
        refine .inr (.inr ⟨_, List.mem_append_right _ List.mem_cons_self, ⟨_, ret, rfl, hret⟩, ?_⟩)
        rintro ⟨p, hp, hpr⟩
        exact Nat.lt_irrefl _ (h.here.sound.owned p hp _ hpr)

theorem place_at {o : Wrapper} (hraw : o.raw = none) (hkind : o.kind = .ssh)
    (hmembers : o.members = []) :
    Adds c rs (place o) fun n => [⟨.ssh, n⟩] := by
  intro w hw
  have hadopted : At _ (⟨o.kind, _⟩ :: rs) _ :=
    At.adopt (by rwa [hmembers]) (by simp [hraw]) fun _ => .inl hkind
  rwa [hkind] at hadopted

theorem construct_accounted (account : Account) (r : Answers) :
    Triple (AccountedAt c rs) (SSH.construct account r) (fun n => AccountedAt c (⟨.ssh, n⟩ :: rs))
      (fun _ => AccountedAt c rs) := by
  refine Triple.bind (Q := fun ssh => AccountedAt c (⟨.ssh, ssh⟩ :: rs))
    (accounted_of_quiet (fun _ => place_at rfl rfl rfl) (.place _)) fun ssh => ?_
  refine Triple.unwinding (fun _ => AccountedAt c (⟨.ssh, ssh⟩ :: rs)) ?_ fun _ _ h => h.drop
  refine Triple.bind (accounted_of_quiet (fun _ => create_at r.init)
    (create_confined quiet_of_noSocket trivial _)) fun lib =>
    holding_accounted (fun n => ⟨.ssh, n⟩ :: rs) ?_
  refine Triple.bind (socketCreate_accounted account.hostname account.port r.toNetwork 2 1 0)
    fun sock =>
    holding_accounted (fun n => ⟨.libssh2, lib⟩ :: ⟨.ssh, n⟩ :: rs) ?_
  -- from here on no descriptor is asked for
  refine accounted_of_quiet (fun c => ?_) ?_
  · refine Triple.bind (newSession_at (by simp) r.sessionInit) fun s =>
      holding_at (fun n => ⟨.socket, sock⟩ :: ⟨.libssh2, lib⟩ :: ⟨.ssh, n⟩ :: rs) ?_
    refine Triple.bind (handshake_at (by simp) (by simp) r.handshake) fun _ => ?_
    refine Triple.bind (raiseIf_at _) fun _ => ?_
    refine Triple.bind (isAuthSupported_at (by simp) _ account.username r.authList r.strstrNull)
      fun _ => ?_
    refine Triple.bind (raiseIf_at _) fun _ => ?_
    refine Triple.bind (passwordAuth_at (by simp) account.username account.password r.password)
      fun _ => ?_
    refine Triple.bind (raiseIf_at _) fun _ => ?_
    refine Triple.bind (newChannel_at (by simp) r.channel) fun channel => ?_
    refine Triple.bind (assignChannel_at (by simp) (some channel)) fun _ => ?_
    refine Triple.bind (((shellOn_rule channel _ r.pty r.shell).weaken ?_).post (fun _ _ h => h.1)
      fun _ _ h => h.1) fun _ => Triple.pure fun _ h => h
    exact fun w h => ⟨h.1, h.2 channel rfl⟩
  · refine .bind (newSession_confined quiet_of_noSocket _ _) fun s => .holding _ ?_
    refine .bind (handshake_confined quiet_of_noSocket trivial _ _) fun _ =>
      .bind (.raiseIf _ _) fun _ => ?_
    refine .bind (isAuthSupported_confined quiet_of_noSocket _ _ _ _ _) fun _ =>
      .bind (.raiseIf _ _) fun _ => ?_
    refine .bind (passwordAuth_confined quiet_of_noSocket _ _ _ _) fun _ =>
      .bind (.raiseIf _ _) fun _ => ?_
    refine .bind (newChannel_confined quiet_of_noSocket _ _) fun _ =>
      .bind (assignChannel_confined trivial _) fun _ => ?_
    exact .bind (shellOn_confined quiet_of_noSocket _ _ _ _) fun _ => .pure ssh

theorem connectToSsh_accounted (account : Account) (r : Answers) :
    Triple (AccountedAt c rs) (connectToSsh account r)
      (fun v => AccountedAt c ((v.map (Addr.mk .channel)).toList ++ rs))
      (fun _ => AccountedAt c rs) := by
  refine Triple.bind (accounted_of_quiet (fun _ => create_at r.init)
    (create_confined quiet_of_noSocket trivial _)) fun lib =>
    holding_accounted (fun v : Option ℕ => (v.map (Addr.mk .channel)).toList ++ rs) ?_
  refine Triple.bind (socketCreate_accounted account.hostname account.port r.toNetwork 2 1 0)
    fun sock =>
    holding_accounted (fun v : Option ℕ => ⟨.libssh2, lib⟩ ::
      ((v.map (Addr.mk .channel)).toList ++ rs)) ?_
  refine accounted_of_quiet (fun c => ?_) ?_
  · refine Triple.bind (newSession_at (by simp) r.sessionInit) fun s =>
      holding_at (fun v : Option ℕ =>
        ⟨.socket, sock⟩ :: ⟨.libssh2, lib⟩ :: ((v.map (Addr.mk .channel)).toList ++ rs)) ?_
    refine Triple.bind (handshake_at (by simp) (by simp) r.handshake) fun _ => ?_
    refine Triple.ite (fun _ => Triple.pure fun _ h => h) fun _ => ?_
    refine Triple.bind (isAuthSupported_at (by simp) _ account.username r.authList r.strstrNull)
      fun _ => Triple.ite (fun _ => Triple.pure fun _ h => h) fun _ => ?_
    refine Triple.bind (passwordAuth_at (by simp) account.username account.password r.password)
      fun _ => Triple.ite (fun _ => Triple.pure fun _ h => h) fun _ => ?_
    refine Triple.bind (newChannel_at (by simp) r.channel) fun channel => ?_
    refine Triple.unwinding (fun _ => At c (⟨.channel, channel⟩ :: ⟨.session, s⟩ ::
      ⟨.socket, sock⟩ :: ⟨.libssh2, lib⟩ :: rs)) ?_ fun _ _ h => h.drop
    refine Triple.bind (shellOn_at (by simp) _ r.pty r.shell) fun _ => Triple.pure fun _ h => ?_
    have hp := (List.perm_middle : ([Addr.mk .session s, ⟨.socket, sock⟩, ⟨.libssh2, lib⟩] ++
      ⟨.channel, channel⟩ :: rs).Perm _).symm
    exact At.perm h hp
  · refine .bind (newSession_confined quiet_of_noSocket _ _) fun s => .holding _ ?_
    refine .bind (handshake_confined quiet_of_noSocket trivial _ _) fun _ => .ite (.pure none) ?_
    refine .bind (isAuthSupported_confined quiet_of_noSocket _ _ _ _ _) fun _ =>
      .ite (.pure none) ?_
    refine .bind (passwordAuth_confined quiet_of_noSocket _ _ _ _) fun _ => .ite (.pure none) ?_
    refine .bind (newChannel_confined quiet_of_noSocket _ _) fun _ => .unwinding _ ?_
    exact .bind (shellOn_confined quiet_of_noSocket _ _ _ _) fun _ => .pure _

theorem program_accounted (o : Operation) {hs : List Addr} (hp : ∀ a ∈ o.pointers, a ∈ hs)
    (hr : ∀ a ∈ o.receivers, a ∈ hs ++ rs) :
    Triple (AccountedAt c (hs ++ rs)) o.program
      (fun as => AccountedAt c (as ++ (hs.diff o.spent ++ rs)))
      (fun _ => AccountedAt c (hs ++ rs)) := by
  by_cases ho : AsksForDescriptor o
  · cases o with
    | socketCreate hostaddr port net domain type protocol =>
      exact Triple.bind (socketCreate_accounted hostaddr port net domain type protocol) fun _ =>
        Triple.pure fun _ h => h
    | connect account r =>
      exact Triple.bind (construct_accounted account r) fun _ => Triple.pure fun _ h => h
    | connectToSsh account r =>
      exact Triple.bind (connectToSsh_accounted account r) fun _ => Triple.pure fun _ h => h
    | _ => exact absurd ho id
  · exact accounted_of_quiet (fun _ => program_at o hp hr)
      (program_confined quiet_of_noSocket ho (quiet_within o))

end Accounts

/-! ## Runs -/

variable {s : State}

abbrev AccountedState (c : Config) (s : State) : Prop :=
  AccountedAt c (s.handles ++ s.automatic) s.world

theorem step_accounted (h : AccountedState c s) (o : Operation) : AccountedState c (s.step o) := by
  unfold State.step
  split
  · rename_i ho
    have := program_accounted (c := c) o ho.1 ho.2 s.world h
    rcases hr : o.program s.world with ⟨r, w⟩
    rw [hr] at this
    cases r with
    | ok new =>
      change AccountedAt c (new ++ s.handles.diff o.spent ++ s.automatic) w
      rw [List.append_assoc]
      exact this
    | error e => exact this
  · exact h

theorem objectStep_accounted (h : AccountedState c s) {o : ObjectOperation} (hfree : CopyFree o) :
    AccountedState c (s.objectStep o) := by
  refine objectStep_keeps (P := AccountedAt c) h (fun h hp => ⟨h.here.perm hp, h.accounted⟩)
    (fun h => h.drop) (fun o' _ => step_accounted h o') ?_ ?_
  · rintro ⟨kind, ssh⟩ shared rs rfl ha
    obtain rfl : kind = .ssh := hfree
    exact accounted_of_quiet (fun _ => copyObject_ssh_at ha) (copyObject_confined _)
  · rintro kind a b rs rfl ha hb
    refine accounted_of_quiet (fun _ => ?_) (assignObject_confined trivial)
    rcases hfree with rfl | rfl | rfl
    · exact assignObject_self_at ha
    · exact assignObject_libssh2_at ha
    · exact assignObject_ssh_at ha hb

theorem accounted_start : AccountedState start State.initial :=
  ⟨⟨sound_start, .refl⟩, fun _ hfd => absurd hfd acquired_nil⟩

theorem accounted_objectRun {os : List ObjectOperation} (hfree : ∀ o ∈ os, CopyFree o) :
    Accounted (State.initial.objectRun os).world := by
  have hrun : ∀ {s}, AccountedState start s → AccountedState start (s.objectRun os) := by
    induction os with
    | nil => exact fun h => h
    | cons o os ih =>
      intro s h
      exact ih (fun o' ho' => hfree o' (List.mem_cons_of_mem _ ho'))
        (objectStep_accounted h (hfree o List.mem_cons_self))
  exact (hrun accounted_start).accounted

/-- At any point of a run that duplicates no handle, everything that was handed out has been
released or is owned by one object, except descriptors on which `connect` failed while no object
owned them. -/
theorem nothing_lost (os : List ObjectOperation) (hfree : ∀ o ∈ os, CopyFree o) (r : Resource)
    (hr : Acquired (State.initial.objectRun os).trace r) :
    Released (State.initial.objectRun os).trace r ∨
      (∃ p ∈ objects (State.initial.objectRun os).world.heap, p.2.raw = some r ∧
        ∀ q ∈ objects (State.initial.objectRun os).world.heap, q.2.raw = some r → q = p) ∨
      ∃ fd, r = .descriptor fd ∧ ConnectFailed (State.initial.objectRun os).world.log fd := by
  have he := exclusive_objectRun hfree
  have howned : Held ownership (objects (State.initial.objectRun os).world.heap) r →
      ∃ p ∈ objects (State.initial.objectRun os).world.heap, p.2.raw = some r ∧
        ∀ q ∈ objects (State.initial.objectRun os).world.heap, q.2.raw = some r → q = p := by
    rintro ⟨p, hp, hpr⟩
    refine ⟨p, hp, hpr, fun q hq hqr => ?_⟩
    have haddr := he.ledger.unique q hq p hp r hqr hpr
    have hb := (sound_objectRun os).balanced
    obtain ⟨d, hd⟩ := exists_cellAt (mem_addrs.mpr ⟨p, hp, rfl⟩)
    exact (eq_of_mem_objects hb.nodup hd hq haddr).trans (eq_of_mem_objects hb.nodup hd hp rfl).symm
  by_cases hs : Simple Call r
  · obtain ⟨fd, rfl⟩ := hs
    rcases accounted_objectRun hfree fd hr with h | h | h
    · exact .inl h
    · exact .inr (.inl (howned h))
    · exact .inr (.inr ⟨fd, rfl, h⟩)
  · rcases he.ledger.covered r hr hs with h | h
    · exact .inl h
    · exact .inr (.inl (howned h))

theorem nothing_lost_refused :
    let s := State.initial.objectRun [.through (.connect ⟨some [], 22, [], []⟩
      ⟨⟨true, fun _ => 0, -1⟩, 0, true, 0, some [], false, 0, true, 0, 0⟩)]
    Released s.trace (.descriptor 1) ∨
      (∃ p ∈ objects s.world.heap, p.2.raw = some (.descriptor 1) ∧
        ∀ q ∈ objects s.world.heap, q.2.raw = some (.descriptor 1) → q = p) ∨
      ∃ fd, Resource.descriptor 1 = .descriptor fd ∧ ConnectFailed s.world.log fd :=
  nothing_lost _ (by simp [CopyFree]) _ ⟨.socket 2 1 0 (some 1), by decide, none, rfl⟩

/-- When the program has given up every pointer and object, the static one included, everything
that was handed out has been released at exactly one place of the trace, except descriptors on
which `connect` failed while no object owned them. -/
theorem all_given_back (os : List ObjectOperation) (hfree : ∀ o ∈ os, CopyFree o)
    (hptr : (State.initial.objectRun os).world.ptr = none)
    (hhandles : (State.initial.objectRun os).handles = [])
    (hautomatic : (State.initial.objectRun os).automatic = []) (r : Resource)
    (hr : Acquired (State.initial.objectRun os).trace r) :
    (∃! i : ℕ, ∃ x, (State.initial.objectRun os).trace[i]? = some x ∧ effect x = .release r) ∨
      ∃ fd, r = .descriptor fd ∧ ConnectFailed (State.initial.objectRun os).world.log fd := by
  have he := exclusive_objectRun hfree
  have hempty := nothing_left os hptr hhandles hautomatic
  have hnone : ¬ Held ownership (objects (State.initial.objectRun os).world.heap) r := by
    rw [hempty]
    rintro ⟨p, hp, -⟩
    cases hp
  by_cases hs : Simple Call r
  · obtain ⟨fd, rfl⟩ := hs
    rcases accounted_objectRun hfree fd hr with h | h | h
    · exact .inl (he.ledger.once.existsUnique h)
    · exact absurd h hnone
    · exact .inr ⟨fd, rfl, h⟩
  · exact .inl (he.ledger.once.existsUnique ((he.ledger.covered r hr hs).resolve_right hnone))

theorem all_given_back_closed :
    let s := State.initial.objectRun [.through (.connect ⟨some [], 22, [], []⟩
      ⟨⟨true, fun _ => 0, 0⟩, 0, true, 0, some (bytes "password"), false, 0, true, 0, 0⟩),
      .through (.dropHandle ⟨.ssh, 0⟩), .through .resetPtr]
    (∃! i : ℕ, ∃ x, s.trace[i]? = some x ∧ effect x = .release (.descriptor 1)) ∨
      ∃ fd, Resource.descriptor 1 = .descriptor fd ∧ ConnectFailed s.world.log fd :=
  all_given_back _ (by simp [CopyFree]) (by decide) (by decide) (by decide) _
    ⟨.socket 2 1 0 (some 1), by decide, none, rfl⟩

end CloudSsh.LeakFreedom
