import CloudSsh.ConnectionAttempts

/-!
# What becomes of an attempt

The `SSH` constructor and `connect_to_ssh` from any world: the calls they make, how they
end and, when they succeed, the objects that are left.
-/
namespace CloudSsh.AttemptOutcomes
open CountedHeap ScopedPrograms RecordedPrograms LibraryCalls WrapperObjects WrapperClasses
open CallByCall ConnectionAttempts

variable {α : Type} {account : Account} {r : Answers} {m : Memory} {t : Numbers} {h h' : Objects}
  {ptr : Option ℕ} {body : ℕ → ℕ → M α}

structure Ready (m : Memory) : Prop where
  lib : ∀ n, m.ptr = some n → ∃ k lib,
    cellAt m.heap ⟨.libssh2, n⟩ = some ⟨⟨.libssh2, n⟩, k + 1, .libssh2 lib⟩
  fresh : ∀ kind n, m.nextObject ≤ n → ⟨kind, n⟩ ∉ addrs m.heap

/-- The library that is there already. -/
def libraryOf (m : Memory) : Option ℕ :=
  m.ptr.bind fun n => ((cellAt m.heap ⟨.libssh2, n⟩).map Cell.obj).bind Wrapper.handle

/-- Nothing but a library is different. -/
def Untouched (h h' : Objects) : Prop := ∀ a : Addr, a.kind ≠ .libssh2 → cellAt h' a = cellAt h a

/-- The objects that a successful attempt leaves. -/
def openedHeap (t : Numbers) (h : Objects) : Objects :=
  t.channelCell 1 :: t.sessionCell 1 (some t.first) :: t.socketCell 1 :: h

def socketScope (account : Account) (r : Answers) (lib : ℕ) (body : ℕ → ℕ → M α) : M α := do
  let socket ← Socket.create account.hostname account.port r.toNetwork
  holding ⟨.socket, socket⟩ do
    let session ← Libssh2.newSession lib r.sessionInit
    holding ⟨.session, session⟩ (body socket session)

/-- The handles of an attempt are those that come next. -/
def Next (r : Answers) (t : Numbers) : Prop := t.toHandles = handlesFrom t.lib t.fd r

theorem newSession_next (hb : Base t h) (ht : Next r t) (ptr : Option ℕ) :
    Runs recorder (Libssh2.newSession t.libssh2 r.sessionInit)
      ⟨t.socketCell 1 :: h, t.fd + 1, t.first + 1, ptr⟩ (.ok (t.first + 1))
      [.sessionInit (some t.lib) t.session] ⟨bodyHeap t h, t.channel, t.first + 2, ptr⟩ := by
  have hsession : t.session = if r.sessionInit then some (t.fd + 1) else none :=
    congrArg Handles.session ht
  have hchannel : t.channel = t.fd + 1 + if r.sessionInit then 1 else 0 :=
    congrArg Handles.channel ht
  rw [hchannel]
  exact newSession_runs hb hsession ptr

theorem socketScope_closed {res : Except Exn α} {calls : Trace} {n k : ℕ} (hb : Base t h)
    (ht : Next r t) (hs : r.socket = true) (hr : ¬ Refused account r)
    (hbody : Runs recorder (body t.first (t.first + 1))
      ⟨bodyHeap t h, t.channel, t.first + 2, ptr⟩ res calls ⟨sessionHeap t h 1 2, n, k, ptr⟩) :
    Runs recorder (socketScope account r t.libssh2 body) ⟨h, t.fd, t.first, ptr⟩ res
      (.socket 2 1 0 (some t.fd) :: connectCall account r t.fd ++
        .sessionInit (some t.lib) t.session :: (calls ++ closingCalls t.toHandles))
      ⟨h, n, k, ptr⟩ := by
  have hinner := (newSession_next hb ht ptr).bind
    (f := fun session => holding ⟨.session, session⟩ (body t.first session))
      (holding_runs _ hbody hb.close_session)
  refine ((socketCreate_ok hs hr rfl).bind (holding_runs _ hinner hb.close_socket)).congr ?_ rfl
  simp [closingCalls]

theorem socketScope_opened {res : Except Exn α} {calls : Trace} {n k : ℕ} (hb : Base t h)
    (hb' : Base t h') (ht : Next r t) (hs : r.socket = true) (hr : ¬ Refused account r)
    (hbody : Runs recorder (body t.first (t.first + 1))
      ⟨bodyHeap t h, t.channel, t.first + 2, ptr⟩ res calls ⟨channelHeap t h' 2 2, n, k, ptr⟩) :
    Runs recorder (socketScope account r t.libssh2 body) ⟨h, t.fd, t.first, ptr⟩ res
      (.socket 2 1 0 (some t.fd) :: connectCall account r t.fd ++
        .sessionInit (some t.lib) t.session :: calls) ⟨channelHeap t h' 1 1, n, k, ptr⟩ := by
  have hinner := (newSession_next hb ht ptr).bind
    (f := fun session => holding ⟨.session, session⟩ (body t.first session))
      (holding_runs _ hbody hb'.leave_session)
  refine ((socketCreate_ok hs hr rfl).bind (holding_runs _ hinner hb'.leave_socket)).congr ?_ rfl
  simp

/-- The library, made or found, is held by the attempt. -/
structure Found (m : Memory) (r : Answers) (calls : Trace) (t : Numbers) (h : Objects)
    (ptr : Option ℕ) : Prop where
  runs : Runs recorder (Libssh2.create r.init) m (.ok t.libssh2) calls ⟨h, t.fd, t.first, ptr⟩
  base : Base t h
  next : Next r t
  untouched : Untouched m.heap h
  spec : ∀ account, connectionCalls (libraryOf m) m.nextHandle account r =
    (calls ++ (attemptCalls account r t.toHandles).1, (attemptCalls account r t.toHandles).2)

theorem Untouched.trans {h'' : Objects} (hu : Untouched h h') (hu' : Untouched h' h'') :
    Untouched h h'' := fun a ha => (hu' a ha).trans (hu a ha)

theorem untouched_retain (n : ℕ) (h : Objects) : Untouched h (retain ⟨.libssh2, n⟩ h) := fun a ha =>
  cellAt_retain_of_ne (by rintro rfl; exact ha rfl) h

theorem untouched_forget (n : ℕ) (h : Objects) : Untouched h (forget ⟨.libssh2, n⟩ h) := fun a ha =>
  cellAt_forget_of_ne (by rintro rfl; exact ha rfl) h

theorem create_known {n lib k : ℕ} (hm : Ready m) (hp : m.ptr = some n)
    (hlib : cellAt m.heap ⟨.libssh2, n⟩ = some ⟨⟨.libssh2, n⟩, k + 1, .libssh2 lib⟩) (r : Answers) :
    Found m r [] ⟨handlesFrom lib m.nextHandle r, n, m.nextObject⟩ (retain ⟨.libssh2, n⟩ m.heap)
      m.ptr where
  runs := by
    have hview := ptr_runs (m := m)
    rw [hp] at hview
    exact hview.bind ((share_runs _).bind (Runs.pure n))
  base := by
    refine ⟨⟨k, cellAt_retain hlib⟩, ?_, ?_, ?_⟩ <;> rw [addrs_retain] <;> apply hm.fresh
    · exact Nat.le_refl _
    · exact Nat.le_add_right _ 1
    · exact Nat.le_add_right _ 2
  next := rfl
  untouched := untouched_retain n m.heap
  spec account := by
    have hl : libraryOf m = some lib := by simp [libraryOf, hp, hlib, Wrapper.handle]
    simp [connectionCalls, hl]

theorem create_new (hm : Ready m) (hp : m.ptr = none) (hr : r.init = 0) :
    Found m r [.init r.init (some m.nextHandle)]
      ⟨handlesFrom m.nextHandle (m.nextHandle + 1) r, m.nextObject, m.nextObject + 1⟩
      (⟨⟨.libssh2, m.nextObject⟩, 2, .libssh2 m.nextHandle⟩ :: m.heap) (some m.nextObject) where
  runs := by
    have hview := ptr_runs (m := m)
    rw [hp] at hview
    have hinit : Runs recorder (acquire (decide (r.init = 0)) (.init r.init)) m
        (.ok (some m.nextHandle)) [.init r.init (some m.nextHandle)]
        { m with nextHandle := m.nextHandle + 1 } := by
      rw [decide_eq_true hr]
      exact acquire_granted _
    refine (hview.bind (hinit.bind ((place_runs _).bind ((setPtr_runs _).bind ((share_runs _).bind
      (Runs.pure m.nextObject)))))).congr rfl ?_
    have hfresh := hm.fresh .libssh2 m.nextObject (Nat.le_refl _)
    simp [retain_cons, retain_of_not_mem hfresh, Wrapper.kind, handlesFrom]
  base := by
    refine ⟨⟨0, by simp [cellAt_cons, handlesFrom]⟩, ?_, ?_, ?_⟩ <;>
      simp only [addrs, List.map_cons, List.mem_cons, Addr.mk.injEq, reduceCtorEq,
        false_and, false_or] <;>
      apply hm.fresh
    · exact Nat.le_add_right _ 1
    · exact Nat.le_add_right _ 2
    · exact Nat.le_add_right _ 3
  next := rfl
  untouched a ha := by
    rw [cellAt_cons, if_neg]
    exact fun hn => ha (hn ▸ rfl)
  spec account := by
    have hl : libraryOf m = none := by simp [libraryOf, hp]
    simp [connectionCalls, hl, hr]

theorem create_failed (hp : m.ptr = none) (hr : r.init ≠ 0) :
    ∃ e, Runs recorder (Libssh2.create r.init) m (.error e) [.init r.init none] m := by
  have hview := ptr_runs (m := m)
  rw [hp] at hview
  have hinit : Runs recorder (acquire (decide (r.init = 0)) (.init r.init)) m (.ok none)
      [.init r.init none] m := by
    rw [decide_eq_false hr]
    exact acquire_denied _
  exact ⟨_, hview.bind (hinit.bind
    (Runs.raise (Exn.runtimeError "libssh2 initialization failed.\n")))⟩

theorem drop_lib (hb : Base t h) :
    Drops [⟨.libssh2, t.libssh2⟩] h [] (forget ⟨.libssh2, t.libssh2⟩ h) := by
  obtain ⟨n, hlib⟩ := hb.lib
  exact Drops.shared hlib (by simp) (Drops.nil _)

theorem leave_lib (hb : Base t h) :
    Drops [⟨.libssh2, t.libssh2⟩] (channelHeap t h 1 1) [] (openedHeap t h) := by
  obtain ⟨n, hlib⟩ := hb.lib
  have hf : forget ⟨.libssh2, t.libssh2⟩ (channelHeap t h 1 1) = openedHeap t h := by
    simp [channelHeap, sessionHeap, openedHeap, forget_cons, forget_retain, Numbers.channelCell,
      Numbers.sessionCell, Numbers.socketCell]
  rw [← hf]
  refine Drops.shared (c := ⟨⟨.libssh2, t.libssh2⟩, n + 3, .libssh2 t.lib⟩) ?_
    (by simp) (Drops.nil _)
  simp [channelHeap, sessionHeap, cellAt_cons, cellAt_retain hlib, Numbers.channelCell,
    Numbers.sessionCell, Numbers.socketCell]

/-- An attempt that has got as far as a session goes on as its body does. -/
structure Prepared (m : Memory) (account : Account) (r : Answers) (body : ℕ → ℕ → M α) (pre : Trace)
    (t : Numbers) (h : Objects) (ptr : Option ℕ) : Prop where
  base : Base t h
  next : Next r t
  untouched : Untouched m.heap h
  spec : connectionCalls (libraryOf m) m.nextHandle account r =
    (pre ++ (sessionCalls account r t.toHandles).1, (sessionCalls account r t.toHandles).2)
  closed : ∀ {res calls n k}, Runs recorder (body t.first (t.first + 1))
    ⟨bodyHeap t h, t.channel, t.first + 2, ptr⟩ res calls ⟨sessionHeap t h 1 2, n, k, ptr⟩ →
    Runs recorder (attempt account r body) m res (pre ++ (calls ++ closingCalls t.toHandles))
      ⟨forget ⟨.libssh2, t.libssh2⟩ h, n, k, ptr⟩
  opened : ∀ {res calls h' n k}, Base t h' → Runs recorder (body t.first (t.first + 1))
    ⟨bodyHeap t h, t.channel, t.first + 2, ptr⟩ res calls ⟨channelHeap t h' 2 2, n, k, ptr⟩ →
    Runs recorder (attempt account r body) m res (pre ++ calls) ⟨openedHeap t h', n, k, ptr⟩

theorem Found.prepared {calls : Trace} (hf : Found m r calls t h ptr) (hs : r.socket = true)
    (hr : ¬ Refused account r) (body : ℕ → ℕ → M α) : Prepared m account r body
      (calls ++ .socket 2 1 0 (some t.fd) :: connectCall account r t.fd ++
        [.sessionInit (some t.lib) t.session]) t h ptr where
  base := hf.base
  next := hf.next
  untouched := hf.untouched
  spec := by simp [hf.spec, attemptCalls, hs, hr]
  closed hbody := (hf.runs.bind (holding_runs _ (socketScope_closed hf.base hf.next hs hr hbody)
    (drop_lib hf.base))).congr (by simp) rfl
  opened hb' hbody := (hf.runs.bind (holding_runs _
    (socketScope_opened hf.base hb' hf.next hs hr hbody) (leave_lib hb'))).congr (by simp) rfl

/-- An attempt fails before there is a session, or it goes on as its body does. -/
theorem attempt_cases (hm : Ready m) (account : Account) (r : Answers) (body : ℕ → ℕ → M α) :
    (∃ e m', Runs recorder (attempt account r body) m (.error e)
        (connectionCalls (libraryOf m) m.nextHandle account r).1 m' ∧
      (connectionCalls (libraryOf m) m.nextHandle account r).2 = false ∧
      Untouched m.heap m'.heap) ∨
    ∃ pre t h ptr, Prepared m account r body pre t h ptr := by
  have hfound : (m.ptr = none ∧ r.init ≠ 0) ∨ ∃ calls t h ptr, Found m r calls t h ptr := by
    cases hp : m.ptr with
    | some n =>
      obtain ⟨k, lib, hlib⟩ := hm.lib n hp
      exact .inr ⟨_, _, _, _, create_known hm hp hlib r⟩
    | none =>
      by_cases hr : r.init = 0
      · exact .inr ⟨_, _, _, _, create_new hm hp hr⟩
      · exact .inl ⟨rfl, hr⟩
  rcases hfound with ⟨hp, hr⟩ | ⟨calls, t, h, ptr, hf⟩
  · obtain ⟨e, he⟩ := create_failed hp hr
    have hl : libraryOf m = none := by simp [libraryOf, hp]
    refine .inl ⟨e, m, (he.bind_error _).congr ?_ rfl, ?_, fun _ _ => rfl⟩ <;>
      simp [connectionCalls, hl, hr]
  cases hs : r.socket with
  | false =>
    obtain ⟨e, he⟩ := socketCreate_denied account hs ⟨h, t.fd, t.first, ptr⟩
    refine .inl ⟨e, _, (hf.runs.bind (holding_runs _ (he.bind_error _) (drop_lib hf.base))).congr ?_
      rfl, ?_, hf.untouched.trans (untouched_forget _ _)⟩ <;>
      simp [hf.spec, attemptCalls, hs]
  | true =>
    by_cases hr : Refused account r
    · obtain ⟨e, he⟩ := socketCreate_refused hs hr h t.fd t.first ptr
      refine .inl ⟨e, _, (hf.runs.bind (holding_runs _ (he.bind_error _) (drop_lib hf.base))).congr
        ?_
        rfl, ?_, hf.untouched.trans (untouched_forget _ _)⟩ <;>
        simp [hf.spec, attemptCalls, hs, hr]
    · exact .inr ⟨_, t, h, ptr, hf.prepared hs hr body⟩

/-! ## `connect_to_ssh` -/

/-- The four ends of what is done with a session. -/
theorem sessionCalls_cases (account : Account) (r : Answers) (t : Handles) :
    ((loginCalls account r t).2 = false ∧
      sessionCalls account r t = ((loginCalls account r t).1 ++ closingCalls t, false)) ∨
    ((loginCalls account r t).2 = true ∧
      ((r.channel = false ∧ sessionCalls account r t =
        ((loginCalls account r t).1 ++ [.channelOpenSession t.session none] ++ closingCalls t,
          false)) ∨
      (r.channel = true ∧
        (((shellCalls r t).2 = false ∧ sessionCalls account r t =
          ((loginCalls account r t).1 ++ (.channelOpenSession t.session (some t.channel) ::
            (shellCalls r t).1 ++ [.channelFree (some t.channel)]) ++ closingCalls t, false)) ∨
        ((shellCalls r t).2 = true ∧ sessionCalls account r t =
          ((loginCalls account r t).1 ++ .channelOpenSession t.session (some t.channel) ::
            (shellCalls r t).1, true)))))) := by
  cases hl : (loginCalls account r t).2 with
  | false => simp [sessionCalls, hl]
  | true =>
    cases hc : r.channel with
    | false => simp [sessionCalls, hl, hc]
    | true => cases hs : (shellCalls r t).2 <;> simp [sessionCalls, hl, hc, hs]

theorem sessionCalls_snd {t : Handles} : (sessionCalls account r t).2 = true ↔
    (loginCalls account r t).2 = true ∧ r.channel = true ∧ (shellCalls r t).2 = true := by
  rcases sessionCalls_cases account r t with
    ⟨hl, hcalls⟩ | ⟨hl, ⟨hc, hcalls⟩ | ⟨hc, ⟨hs, hcalls⟩ | ⟨hs, hcalls⟩⟩⟩ <;> simp [*]

theorem connectToSsh_runs (hm : Ready m) (account : Account) (r : Answers) :
    ∃ res m', Runs recorder (connectToSsh account r) m res
      (connectionCalls (libraryOf m) m.nextHandle account r).1 m' ∧
      ((connectionCalls (libraryOf m) m.nextHandle account r).2 = true ↔ ∃ c,
        res = .ok (some c)) := by
  rw [connectToSsh_eq]
  rcases attempt_cases hm account r _ with ⟨e, m', hrun, hspec, -⟩ | ⟨pre, t, h, ptr, hp⟩
  · exact ⟨_, m', hrun, by simp [hspec]⟩
  rw [hp.spec]
  rcases sessionCalls_cases account r t.toHandles with
    ⟨hl, hcalls⟩ | ⟨hl, ⟨hc, hcalls⟩ | ⟨hc, ⟨hs, hcalls⟩ | ⟨hs, hcalls⟩⟩⟩ <;> rw [hcalls]
  · obtain ⟨stop, hstop, hbody⟩ := loginThen_denied hp.base hl (pure none) (pure none)
      (pure none) (oldOpen r (t.first + 1)) t.channel (t.first + 2) ptr
    obtain rfl : stop = pure none := by simpa using hstop
    exact ⟨_, _, hp.closed (hbody _ _ (Runs.pure none)), by simp⟩
  · obtain ⟨e, he⟩ := oldOpen_denied hp.base hc t.channel (t.first + 2) ptr
    exact ⟨_, _, hp.closed (loginThen_passed hp.base hl _ _ _ he), by simp⟩
  · obtain ⟨e, he⟩ := oldOpen_failed hp.base hc hs ptr
    exact ⟨_, _, hp.closed (loginThen_passed hp.base hl _ _ _ he), by simp⟩
  · have hok := oldOpen_ok hp.base hc hs ptr
    exact ⟨_, _, hp.opened hp.base (loginThen_passed hp.base hl _ _ _ hok), by simp⟩

/-! ## The constructor of `SSH` -/

/-- The memory with the object under construction. -/
def withSsh (m : Memory) : Memory :=
  { m with
    heap := ⟨⟨.ssh, m.nextObject⟩, 1, .ssh none⟩ :: m.heap
    nextObject := m.nextObject + 1 }

theorem libraryOf_withSsh (m : Memory) : libraryOf (withSsh m) = libraryOf m := by
  simp [libraryOf, withSsh, cellAt_cons]

theorem Ready.withSsh (hm : Ready m) : Ready (withSsh m) where
  lib n hp := by
    obtain ⟨k, lib, hlib⟩ := hm.lib n hp
    exact ⟨k, lib, by simpa [AttemptOutcomes.withSsh, cellAt_cons] using hlib⟩
  fresh kind n hn := by
    have hlt : m.nextObject < n := hn
    simp only [AttemptOutcomes.withSsh, addrs, List.map_cons, List.mem_cons, Addr.mk.injEq, not_or]
    exact ⟨fun he => by omega, hm.fresh kind n (by omega)⟩

/-- The object goes without a channel. -/
theorem drop_ssh {n : ℕ} (hc : cellAt h ⟨.ssh, n⟩ = some ⟨⟨.ssh, n⟩, 1, .ssh none⟩) :
    Drops [⟨.ssh, n⟩] h [] (remove ⟨.ssh, n⟩ h) :=
  Drops.last [] hc (Nat.le_refl _) (Drops.nil _)

theorem cellAt_opened (t : Numbers) (h : Objects) (n : ℕ) :
    cellAt (openedHeap t h) ⟨.ssh, n⟩ = cellAt h ⟨.ssh, n⟩ := by
  simp [openedHeap, cellAt_cons, Numbers.channelCell, Numbers.sessionCell, Numbers.socketCell]

/-- The object goes with its channel, and all that the channel holds. -/
theorem drop_ssh_channel {n : ℕ} (hb : Base t h)
    (hc : cellAt h ⟨.ssh, n⟩ = some ⟨⟨.ssh, n⟩, 1, .ssh (some (t.first + 2))⟩) :
    Drops [⟨.ssh, n⟩] (openedHeap t h) (.channelFree (some t.channel) :: closingCalls t.toHandles)
      (forget ⟨.libssh2, t.libssh2⟩ (remove ⟨.ssh, n⟩ h)) := by
  have hcell := (cellAt_opened t h n).trans hc
  have hout : ∀ {a}, a ∉ addrs h → a ∉ addrs (remove ⟨.ssh, n⟩ h) := fun ha hm => ha <| by
    obtain ⟨p, hp, he⟩ := mem_addrs.mp hm
    exact mem_addrs.mpr ⟨p, (mem_objects_remove.mp hp).1, he⟩
  obtain ⟨k, hlib⟩ := hb.lib
  have hlib' : cellAt (remove ⟨.ssh, n⟩ h) ⟨.libssh2, t.libssh2⟩ =
      some ⟨⟨.libssh2, t.libssh2⟩, k + 2, .libssh2 t.lib⟩ := by
    rw [cellAt_remove_of_ne (by simp), hlib]
  refine Drops.last (.channelFree (some t.channel) :: closingCalls t.toHandles) hcell
    (Nat.le_refl _) ?_
  change Drops [⟨.channel, t.first + 2⟩] _ _ _
  have hssh : remove ⟨.ssh, n⟩ (openedHeap t h) = openedHeap t (remove ⟨.ssh, n⟩ h) := by
    simp [openedHeap, remove_cons, Numbers.channelCell, Numbers.sessionCell, Numbers.socketCell]
  rw [hssh]
  refine Drops.last (closingCalls t.toHandles) (c := t.channelCell 1)
    (by simp [openedHeap, cellAt_cons, Numbers.channelCell]) (Nat.le_refl _) ?_
  change Drops [⟨.session, t.first + 1⟩] _ _ _
  have hchannel : remove ⟨.channel, t.first + 2⟩ (openedHeap t (remove ⟨.ssh, n⟩ h)) =
      t.sessionCell 1 (some t.first) :: t.socketCell 1 :: remove ⟨.ssh, n⟩ h := by
    simp [openedHeap, remove_cons, remove_of_not_mem (hout hb.channel), Numbers.channelCell,
      Numbers.sessionCell, Numbers.socketCell]
  rw [hchannel]
  refine Drops.last [.close (some t.fd)] (c := t.sessionCell 1 (some t.first))
    (by simp [cellAt_cons, Numbers.sessionCell]) (Nat.le_refl _) ?_
  change Drops [⟨.socket, t.first⟩, ⟨.libssh2, t.libssh2⟩] _ _ _
  have hsession : remove ⟨.session, t.first + 1⟩ (t.sessionCell 1 (some t.first) ::
      t.socketCell 1 :: remove ⟨.ssh, n⟩ h) = t.socketCell 1 :: remove ⟨.ssh, n⟩ h := by
    simp [remove_cons, remove_of_not_mem (hout hb.session), Numbers.sessionCell, Numbers.socketCell]
  rw [hsession]
  refine Drops.last [] (c := t.socketCell 1) (by simp [cellAt_cons, Numbers.socketCell])
    (Nat.le_refl _) ?_
  have hsocket : remove ⟨.socket, t.first⟩ (t.socketCell 1 :: remove ⟨.ssh, n⟩ h) =
      remove ⟨.ssh, n⟩ h := by
    simp [remove_cons, remove_of_not_mem (hout hb.socket), Numbers.socketCell]
  rw [hsocket]
  exact Drops.shared hlib' (by simp) (Drops.nil _)

theorem Base.setSsh (hb : Base t h) (n : ℕ) (o : Wrapper) : Base t (setObj ⟨.ssh, n⟩ o h) where
  lib := by
    obtain ⟨k, hlib⟩ := hb.lib
    exact ⟨k, by rw [cellAt_setObj_of_ne (by simp), hlib]⟩
  socket := by
    rw [addrs_setObj]
    exact hb.socket
  session := by
    rw [addrs_setObj]
    exact hb.session
  channel := by
    rw [addrs_setObj]
    exact hb.channel

/-- What a constructor that succeeds leaves: the object holds the channel that was opened. -/
structure Opened (n : ℕ) (m : Memory) (r : Answers) (calls : Trace) (t : Numbers) (h : Objects) :
    Prop where
  base : Base t h
  next : Next r t
  opens : .channelOpenSession t.session (some t.channel) ∈ calls
  heap : m.heap = openedHeap t h
  ssh : cellAt h ⟨.ssh, n⟩ = some ⟨⟨.ssh, n⟩, 1, .ssh (some (t.first + 2))⟩

theorem construct_runs (hm : Ready m) (account : Account) (r : Answers) :
    ∃ res m', Runs recorder (SSH.construct account r) m res
      (connectionCalls (libraryOf m) m.nextHandle account r).1 m' ∧
      ((connectionCalls (libraryOf m) m.nextHandle account r).2 = true →
        res = .ok m.nextObject ∧ ∃ t h,
          Opened m.nextObject m' r (connectionCalls (libraryOf m) m.nextHandle account r).1 t h) ∧
      ((connectionCalls (libraryOf m) m.nextHandle account r).2 = false → ∃ e, res = .error e) := by
  rw [construct_eq]
  have hplace : Runs recorder (place (.ssh none)) m (.ok m.nextObject) [] (withSsh m) :=
    place_runs _
  have hcell : cellAt (withSsh m).heap ⟨.ssh, m.nextObject⟩ =
      some ⟨⟨.ssh, m.nextObject⟩, 1, .ssh none⟩ := by
    simp [withSsh, cellAt_cons]
  have hcases := attempt_cases hm.withSsh account r fun socket session =>
    loginThen account r (raise (.runtimeError "Failed to establish SSH connection."))
      (raise (.runtimeError "Password Authentication not supported."))
      (raise (.runtimeError "Password Authentication failed.\n")) (newOpen m.nextObject r session)
      socket session
  rw [libraryOf_withSsh, show (withSsh m).nextHandle = m.nextHandle from rfl] at hcases
  rcases hcases with ⟨e, m', hrun, hspec, hu⟩ | ⟨pre, t, h, ptr, hp⟩
  · have hd := drop_ssh ((hu _ (by simp)).trans hcell)
    refine ⟨_, _, (hplace.bind (Runs.unwinding_error hrun (drop_changes hd))).congr
      (by simp) rfl, ?_, ?_⟩ <;>
      simp [hspec]
  have hssh : cellAt h ⟨.ssh, m.nextObject⟩ = some ⟨⟨.ssh, m.nextObject⟩, 1, .ssh none⟩ :=
    (hp.untouched _ (by simp)).trans hcell
  have hssh' : cellAt (forget ⟨.libssh2, t.libssh2⟩ h) ⟨.ssh, m.nextObject⟩ =
      some ⟨⟨.ssh, m.nextObject⟩, 1, .ssh none⟩ := by
    rw [cellAt_forget_of_ne (by simp), hssh]
  have hset : cellAt (setObj ⟨.ssh, m.nextObject⟩ (.ssh (some (t.first + 2))) h)
      ⟨.ssh, m.nextObject⟩ = some ⟨⟨.ssh, m.nextObject⟩, 1, .ssh (some (t.first + 2))⟩ :=
    cellAt_setObj hssh
  have hspec := hp.spec
  rw [libraryOf_withSsh, show (withSsh m).nextHandle = m.nextHandle from rfl] at hspec
  rw [hspec]
  rcases sessionCalls_cases account r t.toHandles with
    ⟨hl, hcalls⟩ | ⟨hl, ⟨hc, hcalls⟩ | ⟨hc, ⟨hs, hcalls⟩ | ⟨hs, hcalls⟩⟩⟩ <;> rw [hcalls]
  · obtain ⟨stop, hstop, hbody⟩ := loginThen_denied hp.base hl
      (raise (.runtimeError "Failed to establish SSH connection."))
      (raise (.runtimeError "Password Authentication not supported."))
      (raise (.runtimeError "Password Authentication failed.\n"))
      (newOpen m.nextObject r (t.first + 1)) t.channel (t.first + 2) ptr
    obtain ⟨e, rfl⟩ : ∃ e, stop = raise e := by
      rcases List.mem_cons.mp hstop with rfl | hstop
      · exact ⟨_, rfl⟩
      rcases List.mem_pair.mp hstop with rfl | rfl <;> exact ⟨_, rfl⟩
    have hrun := hp.closed (hbody _ _ (Runs.raise e))
    refine ⟨_, _, (hplace.bind (Runs.unwinding_error hrun (drop_changes (drop_ssh hssh')))).congr
      (by simp) rfl, ?_, ?_⟩ <;> simp
  · obtain ⟨e, he⟩ := newOpen_denied hp.base hc m.nextObject t.channel (t.first + 2) ptr
    have hrun := hp.closed (loginThen_passed hp.base hl _ _ _ he)
    refine ⟨_, _, (hplace.bind (Runs.unwinding_error hrun (drop_changes (drop_ssh hssh')))).congr
      (by simp) rfl, ?_, ?_⟩ <;> simp
  · obtain ⟨e, he⟩ := newOpen_failed hp.base hssh hc hs ptr
    have hb := Base.setSsh hp.base m.nextObject (.ssh (some (t.first + 2)))
    have hrun := hp.opened hb (loginThen_passed hp.base hl _ _ _ he)
    refine ⟨_, _, (hplace.bind (Runs.unwinding_error hrun (drop_changes
      (drop_ssh_channel hb hset)))).congr (by simp) rfl, ?_, ?_⟩ <;> simp
  · have hok := newOpen_ok hp.base hssh hc hs ptr
    have hb := Base.setSsh hp.base m.nextObject (.ssh (some (t.first + 2)))
    have hrun := hp.opened hb (loginThen_passed hp.base hl _ _ _ hok)
    refine ⟨_, _, (hplace.bind (Runs.unwinding_ok hrun)).congr (by simp) rfl,
      fun _ => ⟨rfl, t, _, hb, hp.next, ?_, rfl, hset⟩, ?_⟩ <;> simp

end CloudSsh.AttemptOutcomes
