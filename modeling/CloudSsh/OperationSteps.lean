import CloudSsh.OwnershipSteps
import CloudSsh.PublicOperations

/-!
# Operations are sequences of steps

Every method, constructor and operation takes a world to another by steps of the objects,
whether it returns or throws. The pointers that the program holds in variables and in its
handles are the roots, with the static `Libssh2::ptr` in front of them.
-/
namespace CloudSsh.OperationSteps
open CountedHeap ScopedPrograms ResourceTraces Calls OwnershipLedger LibraryCalls WrapperObjects
open WrapperClasses PublicOperations OwnershipSteps Relation

def configOf (s : Store) (roots : List Addr) (busy : Option Resource) : Config := ⟨s, roots, busy⟩

/-- Steps from `c` have led to this store and these pointers. -/
structure Reach (c : Config) (s : Store) (roots : List Addr) (busy : Option Resource) : Prop where
  start : Sound c
  steps : Steps c (configOf s roots busy)

def ptrs (w : World) : List Addr := (w.ptr.map (Addr.mk .libssh2)).toList

/-- Steps from `c` have led to this world, in which the program holds the pointers `rs`. -/
def At (c : Config) (rs : List Addr) (w : World) : Prop := Reach c w.toStore (ptrs w ++ rs) none

section Reach

variable {c : Config} {s : Store} {roots rest : List Addr} {busy : Option Resource} {a : Addr}
  {o : Wrapper} {x : Call}

namespace Reach

theorem sound (h : Reach c s roots busy) : Sound (configOf s roots busy) :=
  h.steps.objectSteps.sound h.start

theorem step (h : Reach c s roots busy) {s' : Store} {roots' : List Addr} {busy' : Option Resource}
    (hstep : Step (configOf s roots busy) (configOf s' roots' busy')) : Reach c s' roots' busy' :=
  ⟨h.start, h.steps.tail hstep⟩

theorem perm (h : Reach c s roots busy) (hp : roots.Perm rest) : Reach c s rest busy :=
  h.step (.perm hp)

theorem addr (h : Reach c s roots busy) (ha : a ∈ roots) : a ∈ addrs s.heap :=
  h.sound.balanced.closed a (List.mem_append_left _ ha)

/-- There is an object of its class at an address. -/
theorem object (h : Reach c s roots busy) (ha : a ∈ addrs s.heap) :
    ∃ d, cellAt s.heap a = some d ∧ d.obj.kind = a.kind := by
  obtain ⟨d, hd⟩ := exists_cellAt ha
  exact ⟨d, hd, (h.sound.typed _ (mem_objects_of_cellAt hd)).symm⟩

theorem share (h : Reach c s roots busy) (ha : a ∈ addrs s.heap) :
    Reach c (s.share a) (a :: roots) busy :=
  h.step (.share ha)

theorem relink {d : Cell Addr Wrapper} (o : Wrapper) (new old : List Addr)
    (h : Reach c s (new ++ roots) none) (hd : cellAt s.heap a = some d)
    (hkind : o.kind = d.obj.kind)
    (hraw : o.raw = d.obj.raw) (hperm : (o.members ++ old).Perm (d.obj.members ++ new))
    (hkeep : ∀ m ∈ d.obj.members, m.kind = .libssh2 ∨ m.kind = .session → m ∈ o.members) :
    Reach c (s.overwrite a o) (old ++ roots) d.obj.raw :=
  h.step (.relink rfl hd hkind hraw hperm hkeep rfl)

theorem members_of_socket (h : Reach c s roots busy) (ha : a.kind = .socket) :
    ∀ m ∈ (dropOne layout a s.heap).members, m.kind = .socket := by
  cases hd : cellAt s.heap a with
  | none => simp [dropOne_dangling hd]
  | some d =>
    have hk := h.sound.typed _ (mem_objects_of_cellAt hd)
    by_cases h1 : d.count ≤ 1
    · rw [dropOne_last hd h1]
      change ∀ m ∈ d.obj.members, m.kind = .socket
      cases hobj : d.obj <;> simp_all [Wrapper.kind, Wrapper.members]
    · simp [dropOne_shared hd h1]

/-- Pointers are dropped, with everything that this leads to. -/
theorem release (pending : List Addr) (h : Reach c s (pending ++ rest) busy)
    (hb : busy = none ∨ ∀ m ∈ pending, m.kind = .socket) :
    Reach c { s with
      heap := (release layout pending s.heap).1
      log := s.log ++ (release layout pending s.heap).2 } rest busy := by
  have := release_induction (L := layout)
    (P := fun pending h log => Reach c { s with heap := h, log := s.log ++ log }
      (pending ++ rest) busy ∧
      (busy = none ∨ ∀ m ∈ pending, m.kind = .socket)) ?_ pending s.heap [] ⟨by simpa using h, hb⟩
  · simpa using this.1
  · rintro a pending h log ⟨hr, hb⟩
    have hba : busy = none ∨ a.kind = .socket := hb.imp_right fun hb => hb a (by simp)
    refine ⟨?_, hb.imp_right fun hb m hm => ?_⟩
    · have := hr.step (.drop (a := a) rfl hba)
      simpa [configOf, List.append_assoc] using this
    · rcases List.mem_append.mp hm with hm | hm
      · exact hr.members_of_socket (hb a (by simp)) m hm
      · exact hb m (by simp [hm])

end Reach

end Reach

section Rules

variable {c : Config} {rs rs' : List Addr} {w : World} {a : Addr} {o : Wrapper} {x : Call}
  {α β : Type} {E : Exn → World → Prop}

namespace At

theorem perm (h : At c rs w) (hp : rs.Perm rs') : At c rs' w := Reach.perm h (hp.append_left _)

theorem addr (h : At c rs w) (ha : a ∈ rs) : a ∈ addrs w.heap :=
  Reach.addr h (List.mem_append_right _ ha)

theorem object (h : At c rs w) (ha : a ∈ addrs w.heap) :
    ∃ d, cellAt w.heap a = some d ∧ d.obj.kind = a.kind := Reach.object h ha

theorem share (h : At c rs w) (ha : a ∈ addrs w.heap) :
    At c (a :: rs) (w.onStore (Store.share a)) :=
  (Reach.share h ha).perm List.perm_middle.symm

theorem drop (h : At c (a :: rs) w) : At c rs (w.onStore (Store.drop a)) :=
  Reach.release [a] (Reach.perm h List.perm_middle) (.inl rfl)

/-- An object owns the resource behind its handle. -/
theorem held (h : At c rs w) (ha : a ∈ addrs w.heap) {r : Resource}
    (hr : some r = (handleAt a w).map a.kind.resource) :
    ∃ o, (a, o) ∈ objects w.heap ∧ o.raw = some r := by
  obtain ⟨d, hd, hkind⟩ := h.object ha
  refine ⟨_, mem_objects_of_cellAt hd, ?_⟩
  rw [raw_eq, hr, handleAt_eq hd, hkind]

/-- A call on the handle of an object. -/
theorem admissible (h : At c rs w) (ha : a ∈ addrs w.heap) (hk : a.kind ≠ .ssh)
    (hx : handles x = [(handleAt a w).map a.kind.resource]) :
    Admissible (configOf w.toStore (ptrs w ++ rs) none) x where
  usable r hr := by
    rw [hx, List.mem_singleton] at hr
    obtain ⟨o, ho, hraw⟩ := h.held ha hr
    exact .inl ⟨_, ho, hraw⟩
  excused := by
    refine ⟨fun hn => ?_, fun needle he => ?_⟩
    · rw [hx, List.mem_singleton] at hn
      obtain ⟨d, hd, hkind⟩ := h.object ha
      have hraw : d.obj.raw = none := by
        rw [raw_eq, ← handleAt_eq hd, hkind, ← hn]
      rcases h.sound.null _ (mem_objects_of_cellAt hd) hraw with hssh | ⟨-, hnull⟩
      · exact absurd (hkind.symm.trans hssh) hk
      · exact hnull
    · rw [he] at hx
      exact nomatch hx

/-- A call without handles. -/
theorem admissible_nil (hx : handles x = [])
    (hs : ∀ needle, x = .strstr none needle → NullList (traceOf w.log)) :
    Admissible (configOf w.toStore (ptrs w ++ rs) none) x :=
  ⟨by simp [hx], by simp [hx], hs⟩

theorem call (h : At c rs w) (hx : effect x = .plain)
    (hadm : Admissible (configOf w.toStore (ptrs w ++ rs) none) x) :
    At c rs (w.onStore (Store.issue x)) :=
  Reach.step h (.call rfl hx hadm)

theorem create (rs : List Addr) {rs₀ : List Addr} {r : Resource}
    {on : Option Resource} {h' : Objects}
    (h : At c rs₀ w) (hx : effect x = .acquire r on) (hr : r.id = w.nextHandle)
    (ho : o.raw = some r)
    (hon : ∀ r', on = some r' → ∃ q ∈ objects w.heap, q.1 ∈ o.members ∧ q.2.raw = some r')
    (hadm : Admissible (configOf w.toStore (ptrs w ++ rs₀) none) x)
    (hh : objects h' = objects w.heap) (hb : Balanced layout h' (ptrs w ++ (o.members ++ rs))) :
    At c (⟨o.kind, w.nextObject⟩ :: rs)
      (w.onStore fun s => Store.place o { s.obtain x with heap := h' }) := by
  have hb' : Balanced layout h' (o.members ++ (ptrs w ++ rs)) :=
    hb.perm (List.perm_append_comm_assoc _ _ _)
  exact (Reach.step h (.create rfl hx hr ho hon hadm hh hb')).perm
    List.perm_middle.symm

theorem adopt (h : At c (o.members ++ rs) w)
    (ho : ∀ r, o.raw = some r → Simple Call r ∧ Acquired (traceOf w.log) r ∧
      ¬ Released (traceOf w.log) r ∧ ¬ Held ownership (objects w.heap) r)
    (hnull : o.raw = none → o.kind = .ssh ∨ o.kind = .session ∧ NullSession (traceOf w.log)) :
    At c (⟨o.kind, w.nextObject⟩ :: rs) (w.onStore (Store.place o)) := by
  have hp : (ptrs w ++ (o.members ++ rs)).Perm (o.members ++ (ptrs w ++ rs)) :=
    List.perm_append_comm_assoc _ _ _
  exact ((Reach.perm h hp).step (.adopt rfl ho hnull rfl)).perm List.perm_middle.symm

end At

theorem share_at (ha : a ∈ rs) : Triple (At c rs) (share a) (fun _ => At c (a :: rs)) E :=
  fun _ h => h.share (h.addr ha)

theorem drop_at : Triple (At c (a :: rs)) (drop a) (fun _ => At c rs) E := fun _ h => h.drop

theorem holding_at {p : M α} (rs' : α → List Addr)
    (h : Triple (At c (a :: rs)) p (fun v => At c (a :: rs' v)) (fun _ => At c (a :: rs))) :
    Triple (At c (a :: rs)) (holding a p) (fun v => At c (rs' v)) (fun _ => At c rs) :=
  Triple.ensuring h (fun _ _ h => h.drop) fun _ _ h => h.drop

theorem withCopy_at {p : M α} {rs' : α → List Addr} (ha : a ∈ rs)
    (h : Triple (At c (a :: rs)) p (fun v => At c (a :: rs' v)) (fun _ => At c (a :: rs))) :
    Triple (At c rs) (withCopy a p) (fun v => At c (rs' v)) (fun _ => At c rs) :=
  Triple.bind (share_at ha) fun _ => holding_at rs' h

theorem acquire_bind {P : World → Prop} {granted : Bool} {x : Option ℕ → Call}
    {f : Option ℕ → M β} {Q : β → World → Prop}
    (hnone : ∀ w, P w → Triple (Eq (w.onStore (Store.issue (x none)))) (f none) Q E)
    (hsome : ∀ w, P w → Triple (Eq (w.onStore (Store.obtain (x (some w.nextHandle)))))
      (f (some w.nextHandle)) Q E) : Triple P (acquire granted x >>= f) Q E := by
  intro w hw
  cases granted with
  | false => exact hnone w hw _ rfl
  | true => exact hsome w hw _ rfl

/-! ## The classes -/

/-- A constructor or operation that adds pointers to those held, and adds none when it throws. -/
abbrev Adds (c : Config) (rs : List Addr) (p : M α) (new : α → List Addr) : Prop :=
  Triple (At c rs) p (fun v => At c (new v ++ rs)) (fun _ => At c rs)

theorem balanced (h : At c rs w) : Balanced layout w.heap (ptrs w ++ rs) := h.sound.balanced

theorem At.shareStatic {n : ℕ} (h : At c rs w) (hp : w.ptr = some n) :
    At c (⟨.libssh2, n⟩ :: rs) (w.onStore (Store.share ⟨.libssh2, n⟩)) :=
  h.share (Reach.addr h (by simp [ptrs, hp]))

/-- A pointer that is held becomes the static one. -/
theorem At.publish {n : ℕ} (h : At c (⟨.libssh2, n⟩ :: rs) w) (hp : w.ptr = none) :
    At c rs { w with ptr := some n } := by
  have hroots : ptrs w = [] := by simp [ptrs, hp]
  rw [At, hroots] at h
  exact h

theorem raiseIf_at {p : Prop} [Decidable p] (e : Exn) : Adds c rs (raiseIf p e) fun _ => [] :=
  Triple.raiseIf (fun _ h => h) fun _ h => h

theorem create_at (rc : Int) : Adds c rs (Libssh2.create rc) fun n => [⟨.libssh2, n⟩] := by
  refine Triple.bindView fun w hw => ?_
  cases hp : w.ptr with
  | some n =>
    rintro _ rfl
    exact hw.shareStatic hp
  | none =>
    refine acquire_bind ?_ ?_
    · rintro _ rfl _ rfl
      exact hw.call rfl (At.admissible_nil rfl (by simp))
    · rintro _ rfl _ rfl
      have hnew := hw.create rs (o := .libssh2 w.nextHandle)
        (x := .init rc (some w.nextHandle)) rfl rfl rfl (by simp)
        (At.admissible_nil rfl (by simp)) rfl (balanced hw)
      exact (hnew.publish hp).shareStatic rfl

theorem newSession_at {lib : ℕ} (hl : ⟨.libssh2, lib⟩ ∈ rs) (granted : Bool) :
    Adds c rs (Libssh2.newSession lib granted) fun n => [⟨.session, n⟩] := by
  refine withCopy_at hl (Triple.bindView fun w hw => acquire_bind ?_ ?_)
  · rintro _ rfl _ rfl
    have hcall := hw.call rfl (hw.admissible (x := .sessionInit (handleAt ⟨.libssh2, lib⟩ w) none)
      (hw.addr List.mem_cons_self) (by simp) rfl)
    have hshare := hcall.share (hcall.addr List.mem_cons_self)
    refine (At.adopt (o := .session none lib none) hshare (by simp [Wrapper.raw]) fun _ => ?_).perm
      (.swap _ _ _)
    exact .inr ⟨rfl, _, List.mem_map_of_mem (List.mem_append_right _ List.mem_cons_self)⟩
  · rintro _ rfl _ rfl
    refine (hw.create _ (o := .session (some w.nextHandle) lib none)
      (x := .sessionInit (handleAt ⟨.libssh2, lib⟩ w) (some w.nextHandle)) rfl rfl rfl
      (fun r hr => ?_) (hw.admissible (hw.addr List.mem_cons_self) (by simp) rfl) objects_retain
      (balanced (hw.share (hw.addr List.mem_cons_self)))).perm (.swap _ _ _)
    obtain ⟨o, ho, hraw⟩ := hw.held (hw.addr List.mem_cons_self) hr.symm
    exact ⟨_, ho, List.mem_cons_self, hraw⟩

theorem openOn_at (resource : ℕ → Resource) {s : ℕ} (hs : ⟨.session, s⟩ ∈ rs) {granted : Bool}
    {x : Option ℕ → Option ℕ → Call} {object : Option ℕ → Wrapper} {what : String} {k : Kind}
    (hid : ∀ n, (resource n).id = n) (hnone : ∀ h, effect (x h none) = .plain)
    (hsome : ∀ h n, effect (x h (some n)) = .acquire (resource n) (h.map .session))
    (hh : ∀ h r, handles (x h r) = [h.map .session])
    (hobj : ∀ n, (object (some n)).members = [⟨.session, s⟩] ∧
      (object (some n)).raw = some (resource n) ∧ (object (some n)).kind = k) :
    Adds c rs (openOn s granted x object what) fun n => [⟨k, n⟩] := by
  refine withCopy_at hs (Triple.bind (share_at List.mem_cons_self) fun _ => ?_)
  refine Triple.bindView fun w hw => acquire_bind ?_ ?_
  · rintro _ rfl _ rfl
    exact (hw.call (hnone _) (hw.admissible (hw.addr List.mem_cons_self) (by simp) (hh _ _))).drop
  · rintro _ rfl _ rfl
    obtain ⟨hmem, hraw, hkind⟩ := hobj w.nextHandle
    have hb := balanced hw
    have := hw.create (⟨.session, s⟩ :: rs) (o := object (some w.nextHandle)) (hsome _ _)
      (hid _) hraw (fun r hr => ?_)
      (hw.admissible (hw.addr List.mem_cons_self) (by simp) (hh _ _)) rfl (by rw [hmem]; exact hb)
    · rw [hkind] at this
      exact this.perm (.swap _ _ _)
    · obtain ⟨o, ho, horaw⟩ := hw.held (hw.addr List.mem_cons_self) hr.symm
      exact ⟨_, ho, by simp [hmem], horaw⟩

theorem newChannel_at {s : ℕ} (hs : ⟨.session, s⟩ ∈ rs) (granted : Bool) :
    Adds c rs (Session.newChannel s granted) fun n => [⟨.channel, n⟩] :=
  openOn_at .channel hs (fun _ => rfl) (fun _ => rfl) (fun _ _ => rfl)
    (fun _ _ => rfl) fun _ => ⟨rfl, rfl, rfl⟩

theorem newChannelTcpip_at {s : ℕ} (hs : ⟨.session, s⟩ ∈ rs) (host : Bytes) (port : Int)
    (shost : Bytes) (sport : Int) (granted : Bool) :
    Adds c rs (Session.newChannelTcpip s host port shost sport granted) fun n => [⟨.channel, n⟩] :=
  openOn_at .channel hs (fun _ => rfl) (fun _ => rfl) (fun _ _ => rfl)
    (fun _ _ => rfl) fun _ => ⟨rfl, rfl, rfl⟩

theorem newListener_at {s : ℕ} (hs : ⟨.session, s⟩ ∈ rs) (port : Int) (granted : Bool) :
    Adds c rs (Session.newListener s port granted) fun n => [⟨.listener, n⟩] :=
  openOn_at .listener hs (fun _ => rfl) (fun _ => rfl) (fun _ _ => rfl)
    (fun _ _ => rfl) fun _ => ⟨rfl, rfl, rfl⟩

theorem newListenerEx_at {s : ℕ} (hs : ⟨.session, s⟩ ∈ rs) (host : Bytes) (port queueMaxsize : Int)
    (granted : Bool) :
    Adds c rs (Session.newListenerEx s host port queueMaxsize granted) fun n => [⟨.listener, n⟩] :=
  openOn_at .listener hs (fun _ => rfl) (fun _ => rfl) (fun _ _ => rfl)
    (fun _ _ => rfl) fun _ => ⟨rfl, rfl, rfl⟩

/-- The program holds a descriptor that no object owns. -/
structure Loose (c : Config) (rs : List Addr) (fd : ℕ) (w : World) : Prop where
  here : At c rs w
  acquired : Acquired (traceOf w.log) (.descriptor fd)
  unreleased : ¬ Released (traceOf w.log) (.descriptor fd)
  unheld : ¬ Held ownership (objects w.heap) (.descriptor fd)

theorem At.obtain (h : At c rs w) (hx : effect x = .acquire (.descriptor w.nextHandle) none)
    (hh : handles x = []) (hs : ∀ needle, x ≠ .strstr none needle) :
    Loose c rs w.nextHandle (w.onStore (Store.obtain x)) where
  here := Reach.step h (.obtain rfl hx
    (At.admissible_nil hh fun needle he => absurd he (hs needle)))
  acquired := by simp [World.onStore, Store.obtain, Store.issue, hx]
  unreleased := by
    have hnot : ¬ Released (traceOf w.log) (.descriptor w.nextHandle) := fun hr =>
      Nat.lt_irrefl _ (h.sound.released_lt hr)
    simpa [World.onStore, Store.obtain, Store.issue, hx] using hnot
  unheld := by
    rintro ⟨p, hp, hr⟩
    exact Nat.lt_irrefl _ (h.sound.owned p hp _ hr)

theorem Loose.connect {fd : ℕ} (h : Loose c rs fd w) (sin : SockAddrIn) (ret : Int) :
    Loose c rs fd (w.onStore (Store.issue (.connect (some fd) sin ret))) where
  here := by
    refine h.here.call rfl ⟨fun r hr => .inr ?_, ?_, ?_⟩
    · obtain rfl : r = .descriptor fd := Option.some.inj (List.mem_singleton.mp hr)
      exact ⟨⟨fd, rfl⟩, h.unreleased⟩
    · exact fun hn => nomatch List.mem_singleton.mp hn
    · exact fun needle he => nomatch he
  acquired := by simpa [World.onStore, Store.issue] using .inl h.acquired
  unreleased := by
    have hx : effect (Call.connect (some fd) sin ret) = .plain := rfl
    simpa [World.onStore, Store.issue, hx] using h.unreleased
  unheld := h.unheld

theorem connectOn_rule {P : World → Prop} (sock : Option ℕ) (hostaddr : Bytes) (port : UInt16)
    (net : Network)
    (hP : ∀ w sin, P w → P (w.onStore (Store.issue (.connect sock sin net.connect)))) :
    Triple P (Socket.connectOn sock hostaddr port net) (fun _ => P) (fun _ => P) := by
  refine Triple.bind (Q := fun _ => P) (fun w hw => hP w _ hw) fun _ => ?_
  exact Triple.raiseIf (fun _ h => h) fun _ h => h

theorem socketCreate_at (hostaddr : Option Bytes) (port : Int16) (net : Network)
    (domain type protocol : Int) :
    Adds c rs (Socket.create hostaddr port net domain type protocol) fun n => [⟨.socket, n⟩] := by
  refine acquire_bind ?_ fun w hw => ?_
  · rintro w hw _ rfl
    exact hw.call rfl (At.admissible_nil rfl (by simp))
  have hloose := hw.obtain (x := .socket domain type protocol (some w.nextHandle)) rfl rfl (by simp)
  refine Triple.of_eq (P := Loose c rs w.nextHandle) ?_ hloose
  have hplace : Triple (Loose c rs w.nextHandle) (place (.socket (some w.nextHandle)))
      (fun n => At c ([⟨.socket, n⟩] ++ rs)) (fun _ => At c rs) := by
    intro w' h
    refine At.adopt (o := .socket (some _)) h.here (fun r hr => ?_) (by simp [Wrapper.raw])
    obtain rfl := Option.some.inj hr
    exact ⟨⟨_, rfl⟩, h.acquired, h.unreleased, h.unheld⟩
  cases hostaddr with
  | none => exact hplace
  | some host =>
    refine Triple.bind (Triple.post
      (connectOn_rule _ _ _ _ fun _ sin h => h.connect sin _) (fun _ _ h => h)
      fun _ _ h => h.here) fun _ => hplace

theorem socketConnect_at {s : ℕ} (hs : ⟨.socket, s⟩ ∈ rs) (hostaddr : Bytes) (port : UInt16)
    (net : Network) : Adds c rs (Socket.connect s hostaddr port net) fun _ => [] := by
  refine Triple.bindView fun w hw => ?_
  have hrule := connectOn_rule (handleAt ⟨.socket, s⟩ w) hostaddr port net
    (P := fun w' => At c rs w' ∧ handleAt ⟨.socket, s⟩ w' = handleAt ⟨.socket, s⟩ w) ?_
  · exact (hrule.post (fun _ _ h => h.1) fun _ _ h => h.1).of_eq ⟨hw, rfl⟩
  · rintro w' sin ⟨h, he⟩
    exact ⟨h.call rfl (h.admissible (h.addr hs) (by simp) (by rw [he]; rfl)), he⟩

/-- An object's member is assigned to and what it held is dropped. -/
theorem assign_reach {old : Option Addr} {roots : List Addr} {busy : Option Resource}
    (h : Reach c (w.toStore.overwrite a o) (old.toList ++ roots) busy)
    (hb : busy = none ∨ ∀ b ∈ old.toList, b.kind = .socket) :
    ∃ w', assign a o old w = (.ok (), w') ∧ ptrs w' = ptrs w ∧ Reach c w'.toStore roots busy ∧
      ∀ p ∈ objects w'.heap, p ∈ objects (setObj a o w.heap) := by
  cases old with
  | none => exact ⟨_, rfl, rfl, h, fun _ hp => hp⟩
  | some b => exact ⟨_, rfl, rfl, h.release [b] hb, fun _ hp => mem_objects_release hp⟩

/-- The only object that there can be at an address is there. -/
theorem Reach.object_eq {s : Store} {roots : List Addr} {busy : Option Resource}
    (h : Reach c s roots busy) (ha : a ∈ roots) (ho : ∀ p ∈ objects s.heap, p.1 = a → p = (a, o)) :
    ∃ d, cellAt s.heap a = some d ∧ d.obj = o := by
  obtain ⟨d, hd, -⟩ := h.object (h.addr ha)
  exact ⟨d, hd, (Prod.mk.inj (ho _ (mem_objects_of_cellAt hd) rfl)).2⟩

/-- The session at `s` works on the socket at `k` from now on. -/
theorem Reach.give {st : Store} {roots : List Addr} {s k : ℕ} (raw : Option ℕ) (lib : ℕ)
    (h : Reach c st roots (raw.map .session)) (hs : ⟨.session, s⟩ ∈ roots)
    (hk : ⟨.socket, k⟩ ∈ roots)
    (ho : ∀ p ∈ objects st.heap, p.1 = ⟨.session, s⟩ →
      p = (⟨.session, s⟩, .session raw lib (some k)))
    (rc : Int) :
    Reach c (st.issue (.sessionHandshake raw
      (((cellAt st.heap ⟨.socket, k⟩).map Cell.obj).bind Wrapper.handle) rc))
      roots none := by
  obtain ⟨d, hd, hobj⟩ := h.object_eq hs ho
  obtain ⟨e, he, hkind⟩ := h.object (h.addr hk)
  obtain ⟨fd, hfd⟩ : ∃ fd, e.obj = .socket fd := by
    cases hobj' : e.obj <;> simp_all [Wrapper.kind]
  refine h.step (.give (s := s) (k := k) hd hobj he hfd (by rw [hobj]; rfl)
    (by rw [he, Option.map_some, Option.bind_some, hfd]; rfl) ⟨fun hn => ?_, by simp⟩)
  have hnull : raw = none ∨ fd = none := by
    simpa [handles, Call.handles, he, hfd, Wrapper.handle, eq_comm] using hn
  rcases hnull with rfl | rfl
  · have := h.sound.null _ (mem_objects_of_cellAt hd) (by rw [hobj]; rfl)
    simpa [hobj, Wrapper.kind] using this
  · have := h.sound.null _ (mem_objects_of_cellAt he) (by rw [hfd]; rfl)
    simp [hfd, Wrapper.kind] at this

theorem handshake_at {s k : ℕ} (hs : ⟨.session, s⟩ ∈ rs) (hk : ⟨.socket, k⟩ ∈ rs) (rc : Int) :
    Adds c rs (Session.handshake s k rc) fun _ => [] := by
  refine withCopy_at hk (Triple.bindView fun w hw => ?_)
  obtain ⟨d, hd, hkind⟩ := hw.object (hw.addr (List.mem_cons_of_mem _ hs))
  obtain ⟨raw, lib, old, ho⟩ : ∃ raw lib old, d.obj = .session raw lib old := by
    cases hobj : d.obj <;> simp_all [Wrapper.kind]
  have hat : objectAt ⟨.session, s⟩ w = some (.session raw lib old) := by simp [objectAt, hd, ho]
  have hsame : ∀ p ∈ objects w.heap, p.1 = ⟨.session, s⟩ →
      p = (⟨.session, s⟩, .session raw lib old) := fun p hp hpa =>
    ho ▸ eq_of_mem_objects hw.sound.balanced.nodup hd hp hpa
  rw [hat]
  -- the copy that goes into the member
  refine Triple.bindEq (t := w.onStore (Store.share ⟨.socket, k⟩)) rfl ?_
  have hshare := hw.share (hw.addr List.mem_cons_self)
  obtain ⟨d₁, hd₁, ho₁⟩ := hshare.object_eq (a := ⟨.session, s⟩) (by simp [hs]) fun p hp =>
    hsame p (by rwa [← objects_retain])
  have hready : Reach c (w.toStore.share ⟨.socket, k⟩)
      ([⟨.socket, k⟩] ++ (ptrs w ++ ⟨.socket, k⟩ :: rs)) none := Reach.perm hshare List.perm_middle
  have hlink := hready.relink (.session raw lib (some k)) _ (old.map (Addr.mk .socket)).toList hd₁
    (by rw [ho₁]; rfl) (by rw [ho₁]; rfl) ?_ ?_
  · obtain ⟨w', hassign, hptr, hreach, hsub⟩ :=
      assign_reach (w := w.onStore (Store.share ⟨.socket, k⟩))
      hlink (.inr (by cases old <;> simp))
    refine Triple.bindEq hassign (Triple.bindView ?_)
    rintro _ rfl _ rfl
    rw [ho₁] at hreach
    have hgive := hreach.give raw lib (s := s) (k := k) (by simp [hs]) (by simp)
      (fun p hp hpa => ?_) rc
    · rw [← show ptrs w' = ptrs w from hptr] at hgive
      exact hgive
    · exact ((mem_objects_setObj.mp (hsub p hp)).resolve_right fun h => h.2 hpa).1
  · rw [ho₁]
    cases old with
    | none => exact .swap _ _ _
    | some v => exact (List.reverse_perm [_, _, _]).symm
  · rw [ho₁]
    intro m hm hmk
    rcases List.mem_append.mp hm with hm | hm
    · obtain ⟨v, -, rfl⟩ : ∃ v, old = some v ∧ ⟨.socket, v⟩ = m := by simpa using hm
      simp at hmk
    · exact List.mem_append_right _ hm

theorem method_at {s : ℕ} (hs : ⟨.session, s⟩ ∈ rs) (m : SessionMethod) (ret : Int) :
    Adds c rs (Session.method m s ret) fun _ => [] :=
  fun _ h => h.call rfl (h.admissible (h.addr hs) (by simp) rfl)

theorem passwordAuth_at {s : ℕ} (hs : ⟨.session, s⟩ ∈ rs) (username password : Bytes) (rc : Int) :
    Adds c rs (Session.passwordAuth s username password rc) fun _ => [] :=
  fun _ h => h.call rfl (h.admissible (h.addr hs) (by simp) rfl)

theorem getSupportedAuthList_at {s : ℕ} (hs : ⟨.session, s⟩ ∈ rs) (username : Bytes)
    (ret : Option Bytes) : Adds c rs (Session.getSupportedAuthList s username ret) fun _ => [] :=
  fun _ h => h.call rfl (h.admissible (h.addr hs) (by simp) rfl)

theorem isAuthSupported_at {s : ℕ} (hs : ⟨.session, s⟩ ∈ rs) (needle username : Bytes)
    (ret : Option Bytes) (onNull : Bool) :
    Adds c rs (Session.isAuthSupported needle s username ret onNull) fun _ => [] := by
  intro w hw
  have hlist := hw.call (x := .userauthList (handleAt ⟨.session, s⟩ w) username ret) rfl
    (hw.admissible (hw.addr hs) (by simp) rfl)
  have hstr := hlist.call (x := .strstr ret needle) rfl (At.admissible_nil rfl fun needle' he => ?_)
  · cases ret <;> exact hstr
  · obtain ⟨rfl, -⟩ : ret = none ∧ needle = needle' := by simpa using he
    exact ⟨_, _, List.mem_map_of_mem (List.mem_append_right _ List.mem_cons_self)⟩

/-- The program holds `rs` and there is a channel at `s`. -/
def WithChannel (c : Config) (rs : List Addr) (s : ℕ) (w : World) : Prop :=
  At c rs w ∧ ⟨.channel, s⟩ ∈ addrs w.heap

theorem callOn_rule (s : ℕ) (f : ChannelFunction) (ret : Int) :
    Triple (WithChannel c rs s) (Channel.callOn f s ret) (fun _ => WithChannel c rs s) E :=
  fun _ h => ⟨h.1.call rfl (h.1.admissible h.2 (by simp) rfl), h.2⟩

theorem shellOn_rule (s : ℕ) (terminal : ChannelFunction) (pty shell : Int) :
    Triple (WithChannel c rs s) (Channel.shellOn terminal s pty shell)
      (fun _ => WithChannel c rs s) (fun _ => WithChannel c rs s) := by
  refine Triple.bind (callOn_rule s terminal pty) fun _ => ?_
  refine Triple.bind (Triple.raiseIf (Q := fun _ => WithChannel c rs s) (fun _ h => h) fun _ h => h)
    fun _ => ?_
  refine Triple.bind (callOn_rule s .shell shell) fun _ => ?_
  exact Triple.raiseIf (fun _ h => h) fun _ h => h

theorem callOn_at {s : ℕ} (hs : ⟨.channel, s⟩ ∈ rs) (f : ChannelFunction) (ret : Int) :
    Adds c rs (Channel.callOn f s ret) fun _ => [] :=
  ((callOn_rule s f ret).weaken fun _ h => ⟨h, h.addr hs⟩).post (fun _ _ h => h.1) fun _ _ h => h

theorem shellOn_at {s : ℕ} (hs : ⟨.channel, s⟩ ∈ rs) (terminal : ChannelFunction)
    (pty shell : Int) : Adds c rs (Channel.shellOn terminal s pty shell) fun _ => [] :=
  ((shellOn_rule s terminal pty shell).weaken fun _ h => ⟨h, h.addr hs⟩).post (fun _ _ h => h.1)
    fun _ _ h => h.1

theorem At.assignSsh {ssh : ℕ} {channel old : Option ℕ} {d : Cell Addr Wrapper}
    (h : At c ((channel.map (Addr.mk .channel)).toList ++ rs) w) (hs : ⟨.ssh, ssh⟩ ∈ rs)
    (hd : cellAt w.heap ⟨.ssh, ssh⟩ = some d) (ho : d.obj = .ssh old) :
    ∃ w', assign ⟨.ssh, ssh⟩ (.ssh channel) (old.map (Addr.mk .channel)) w = (.ok (), w') ∧
      At c rs w' ∧ ∀ k, channel = some k → ⟨.channel, k⟩ ∈ addrs w'.heap := by
  have hraw : d.obj.raw = none := by rw [ho]; rfl
  have hlink := Reach.relink (.ssh channel) (channel.map (Addr.mk .channel)).toList
    (old.map (Addr.mk .channel)).toList (Reach.perm h (List.perm_append_comm_assoc _ _ _)) hd
    (by rw [ho]; rfl) (by rw [ho]; rfl) (by rw [ho]; exact List.perm_append_comm) ?_
  · obtain ⟨w', hassign, hptr, hreach, hsub⟩ := assign_reach hlink (.inl hraw)
    rw [hraw, ← show ptrs w' = ptrs w from hptr] at hreach
    have hssh : ∀ p ∈ objects w'.heap, p.1 = ⟨.ssh, ssh⟩ → p = (⟨.ssh, ssh⟩, .ssh channel) := by
      intro p hp hpa
      exact ((mem_objects_setObj.mp (hsub p hp)).resolve_right fun h => h.2 hpa).1
    obtain ⟨e, he, hobj⟩ := hreach.object_eq (List.mem_append_right _ hs) hssh
    refine ⟨w', hassign, hreach, fun k hk => ?_⟩
    apply hreach.sound.balanced.closed
    refine List.mem_append_right _ (mem_refs.mpr ⟨_, mem_objects_of_cellAt he, ?_⟩)
    simp [layout, hobj, hk, Wrapper.members]
  · rw [ho]
    intro m hm hmk
    obtain ⟨v, -, rfl⟩ : ∃ v, old = some v ∧ ⟨.channel, v⟩ = m := by
      simpa [Wrapper.members] using hm
    simp at hmk

/-- Behind a pointer to an `SSH` there is one. -/
theorem At.ssh {ssh : ℕ} (h : At c rs w) (hs : ⟨.ssh, ssh⟩ ∈ addrs w.heap) :
    ∃ d channel, cellAt w.heap ⟨.ssh, ssh⟩ = some d ∧ d.obj = .ssh channel ∧
      objectAt ⟨.ssh, ssh⟩ w = some (.ssh channel) := by
  obtain ⟨d, hd, hkind⟩ := h.object hs
  obtain ⟨channel, ho⟩ : ∃ channel, d.obj = .ssh channel := by
    cases hobj : d.obj <;> simp_all [Wrapper.kind]
  exact ⟨d, channel, hd, ho, by simp [objectAt, hd, ho]⟩

theorem assignChannel_at {ssh : ℕ} (hs : ⟨.ssh, ssh⟩ ∈ rs) (channel : Option ℕ) :
    Triple (At c ((channel.map (Addr.mk .channel)).toList ++ rs)) (SSH.assignChannel ssh channel)
      (fun _ w => At c rs w ∧ ∀ k, channel = some k → ⟨.channel, k⟩ ∈ addrs w.heap)
      (fun _ => At c rs) := by
  refine Triple.bindView fun w hw => ?_
  obtain ⟨d, old, hd, ho, hat⟩ := hw.ssh (hw.addr (List.mem_append_right _ hs))
  rw [hat]
  obtain ⟨w', hassign, hw', hchannel⟩ := hw.assignSsh hs hd ho
  exact Triple.known hassign ⟨hw', hchannel⟩

theorem construct_at (account : Account) (r : Answers) :
    Adds c rs (SSH.construct account r) fun n => [⟨.ssh, n⟩] := by
  refine Triple.bind (Q := fun ssh => At c (⟨.ssh, ssh⟩ :: rs)) ?_ fun ssh => ?_
  · exact fun w hw => At.adopt (o := .ssh none) hw (by simp [Wrapper.raw]) fun _ => .inl rfl
  refine Triple.unwinding (fun _ => At c (⟨.ssh, ssh⟩ :: rs)) ?_ fun _ _ h => h.drop
  refine Triple.bind (create_at r.init) fun lib => holding_at (fun n => ⟨.ssh, n⟩ :: rs) ?_
  refine Triple.bind (socketCreate_at account.hostname account.port r.toNetwork 2 1 0) fun sock =>
    holding_at (fun n => ⟨.libssh2, lib⟩ :: ⟨.ssh, n⟩ :: rs) ?_
  refine Triple.bind (newSession_at (by simp) r.sessionInit) fun s =>
    holding_at (fun n => ⟨.socket, sock⟩ :: ⟨.libssh2, lib⟩ :: ⟨.ssh, n⟩ :: rs) ?_
  refine Triple.bind (handshake_at (by simp) (by simp) r.handshake) fun _ => ?_
  refine Triple.bind (raiseIf_at _) fun _ => ?_
  refine Triple.bind (isAuthSupported_at (by simp) _ account.username r.authList r.strstrNull)
    fun _ => ?_
  refine Triple.bind (raiseIf_at _) fun _ => ?_
  refine Triple.bind (passwordAuth_at (by simp) account.username account.password r.password)
    fun _ => ?_
  refine Triple.bind (raiseIf_at _) fun _ => ?_
  refine Triple.bind (newChannel_at (by simp) r.channel) fun channel => ?_
  refine Triple.bind (assignChannel_at (by simp) (some channel)) fun _ => ?_
  refine Triple.bind (((shellOn_rule channel _ r.pty r.shell).weaken ?_).post
    (fun _ _ h => h.1) fun _ _ h => h.1) fun _ => Triple.pure fun _ h => h
  exact fun w h => ⟨h.1, h.2 channel rfl⟩

theorem connectToSsh_at (account : Account) (r : Answers) :
    Adds c rs (connectToSsh account r) fun v => (v.map (Addr.mk .channel)).toList := by
  refine Triple.bind (create_at r.init) fun lib =>
    holding_at (fun v : Option ℕ => (v.map (Addr.mk .channel)).toList ++ rs) ?_
  refine Triple.bind (socketCreate_at account.hostname account.port r.toNetwork 2 1 0) fun sock =>
    holding_at (fun v : Option ℕ => ⟨.libssh2, lib⟩ :: ((v.map (Addr.mk .channel)).toList ++ rs)) ?_
  refine Triple.bind (newSession_at (by simp) r.sessionInit) fun s =>
    holding_at (fun v : Option ℕ =>
      ⟨.socket, sock⟩ :: ⟨.libssh2, lib⟩ :: ((v.map (Addr.mk .channel)).toList ++ rs)) ?_
  refine Triple.bind (handshake_at (by simp) (by simp) r.handshake) fun _ => ?_
  refine Triple.ite (fun _ => Triple.pure fun _ h => h) fun _ => ?_
  refine Triple.bind (isAuthSupported_at (by simp) _ account.username r.authList r.strstrNull)
    fun _ => Triple.ite (fun _ => Triple.pure fun _ h => h) fun _ => ?_
  refine Triple.bind (passwordAuth_at (by simp) account.username account.password r.password)
    fun _ => Triple.ite (fun _ => Triple.pure fun _ h => h) fun _ => ?_
  refine Triple.bind (newChannel_at (by simp) r.channel) fun channel => ?_
  refine Triple.unwinding (fun _ => At c (⟨.channel, channel⟩ :: ⟨.session, s⟩ ::
    ⟨.socket, sock⟩ :: ⟨.libssh2, lib⟩ :: rs)) ?_ fun _ _ h => h.drop
  refine Triple.bind (shellOn_at (by simp) _ r.pty r.shell) fun _ => Triple.pure fun _ h => ?_
  have hp := (List.perm_middle : ([Addr.mk .session s, ⟨.socket, sock⟩, ⟨.libssh2, lib⟩] ++
    ⟨.channel, channel⟩ :: rs).Perm _).symm
  exact At.perm h hp

theorem resetPtr_at : Adds c rs resetPtr fun _ => [] := by
  refine Triple.bindView fun w hw => ?_
  cases hp : w.ptr with
  | none => exact fun _ h => h ▸ hw
  | some n =>
    rintro _ rfl
    have hroots : ptrs w = [⟨.libssh2, n⟩] := by simp [ptrs, hp]
    rw [At, hroots] at hw
    exact Reach.release [⟨.libssh2, n⟩] hw (.inl rfl)

theorem shareAll_rule {as : List Addr} {os : List (Addr × Wrapper)}
    (has : ∀ a ∈ as, ∃ p ∈ os, p.1 = a) :
    Triple (fun w => At c rs w ∧ objects w.heap = os) (shareAll as)
      (fun _ w => At c (as ++ rs) w ∧ objects w.heap = os) E := by
  induction as generalizing rs with
  | nil => exact Triple.pure fun _ h => h
  | cons a as ih =>
    refine Triple.bind (Q := fun _ w => At c (a :: rs) w ∧ objects w.heap = os) ?_ fun _ => ?_
    · rintro w ⟨h, ho⟩
      exact ⟨h.share (mem_addrs.mpr (ho ▸ has a (by simp))), objects_retain.trans ho⟩
    · exact (ih fun b hb => has b (by simp [hb])).post
        (fun _ _ h => ⟨h.1.perm List.perm_middle, h.2⟩) fun _ _ h => h

theorem shareAll_at {as : List Addr} (has : ∀ a ∈ as, a ∈ rs) :
    Triple (At c rs) (shareAll as) (fun _ => At c (as ++ rs)) E := fun w hw =>
  Triple.post (shareAll_rule fun a ha => mem_addrs.mp (hw.addr (has a ha))) (fun _ _ h => h.1)
    (fun _ _ h => h) w ⟨hw, rfl⟩

/-! ## The operations -/

theorem handlesOf_at {k : Kind} {p : M ℕ} (h : Adds c rs p fun n => [⟨k, n⟩]) :
    Adds c rs (handlesOf k p) fun as => as :=
  Triple.bind h fun _ => Triple.pure fun _ h => h

theorem noHandles_at {p : M α} (h : Adds c rs p fun _ => []) :
    Adds c rs (noHandles p) fun as => as :=
  Triple.bind h fun _ => Triple.pure fun _ h => h

theorem sshChannel_at {ssh : ℕ} (hs : ⟨.ssh, ssh⟩ ∈ rs) :
    Adds c rs (Operation.sshChannel ssh).program fun as => as := by
  refine Triple.bindView fun w hw => ?_
  obtain ⟨d, channel, hd, ho, hat⟩ := hw.ssh (hw.addr hs)
  rw [hat]
  cases channel with
  | none => exact Triple.known rfl hw
  | some k =>
    refine Triple.known rfl (hw.share ?_)
    apply hw.sound.balanced.closed
    refine List.mem_append_right _ (mem_refs.mpr ⟨_, mem_objects_of_cellAt hd, ?_⟩)
    simp [layout, ho, Wrapper.members]

/-- An operation on what the program holds adds the pointers that it hands out and takes away
those that it was to give up. -/
theorem program_at (o : Operation) {hs : List Addr} (hp : ∀ a ∈ o.pointers, a ∈ hs)
    (hr : ∀ a ∈ o.receivers, a ∈ hs ++ rs) :
    Triple (At c (hs ++ rs)) o.program (fun as => At c (as ++ (hs.diff o.spent ++ rs)))
      (fun _ => At c (hs ++ rs)) := by
  have hp' : ∀ a ∈ o.pointers, a ∈ hs ++ rs := fun a ha => List.mem_append_left _ (hp a ha)
  cases o with
  | create rc => exact handlesOf_at (create_at rc)
  | resetPtr => exact noHandles_at resetPtr_at
  | socketCreate hostaddr port net domain type protocol =>
    exact handlesOf_at (socketCreate_at hostaddr port net domain type protocol)
  | socketConnect s hostaddr port net =>
    exact noHandles_at (socketConnect_at (hr _ List.mem_cons_self) hostaddr port net)
  | newSession lib granted => exact handlesOf_at (newSession_at (hp' _ List.mem_cons_self) granted)
  | handshake s sock rc =>
    exact noHandles_at (handshake_at (hr _ List.mem_cons_self) (hp' _ List.mem_cons_self) rc)
  | newChannel s granted => exact handlesOf_at (newChannel_at (hp' _ List.mem_cons_self) granted)
  | newChannelTcpip s host port shost sport granted =>
    exact handlesOf_at (newChannelTcpip_at (hp' _ List.mem_cons_self) host port shost sport granted)
  | newListener s port granted =>
    exact handlesOf_at (newListener_at (hp' _ List.mem_cons_self) port granted)
  | newListenerEx s host port queueMaxsize granted =>
    exact handlesOf_at
      (newListenerEx_at (hp' _ List.mem_cons_self) host port queueMaxsize granted)
  | sessionMethod m s ret => exact noHandles_at (method_at (hr _ List.mem_cons_self) m ret)
  | getSupportedAuthList s username ret =>
    exact noHandles_at (getSupportedAuthList_at (hr _ List.mem_cons_self) username ret)
  | isPasswordAuthSupported s username ret onNull =>
    exact noHandles_at (isAuthSupported_at (hr _ List.mem_cons_self) _ username ret onNull)
  | isPubkeyAuthSupported s username ret onNull =>
    exact noHandles_at (isAuthSupported_at (hr _ List.mem_cons_self) _ username ret onNull)
  | passwordAuth s username password rc =>
    exact noHandles_at (passwordAuth_at (hr _ List.mem_cons_self) username password rc)
  | channelMethod m k ret => exact noHandles_at (callOn_at (hr _ List.mem_cons_self) _ ret)
  | shell k term pty sh => exact noHandles_at (shellOn_at (hr _ List.mem_cons_self) _ pty sh)
  | shellEx k term modes widthChar heightChar widthPx heightPx pty sh =>
    exact noHandles_at (shellOn_at (hr _ List.mem_cons_self) _ pty sh)
  | connect account r => exact handlesOf_at (construct_at account r)
  | connectToSsh account r =>
    exact Triple.bind (connectToSsh_at account r) fun _ => Triple.pure fun _ h => h
  | sshChannel ssh => exact sshChannel_at (hr _ List.mem_cons_self)
  | assignChannel ssh k =>
    refine Triple.bind (shareAll_at hp') fun _ => ?_
    refine Triple.bind (assignChannel_at (hr _ List.mem_cons_self) k) fun _ => ?_
    exact Triple.pure fun _ h => h.1
  | copyHandle a =>
    exact Triple.bind (share_at (hp' _ List.mem_cons_self)) fun _ => Triple.pure fun _ h => h
  | dropHandle a =>
    have ha : a ∈ hs := hp _ List.mem_cons_self
    change Triple _ _ (fun as => At c (as ++ (hs.diff [a] ++ rs))) _
    rw [List.diff_cons, List.diff_nil]
    refine Triple.bind (Triple.weaken drop_at fun _ h => ?_) fun _ => Triple.pure fun _ h => h
    exact h.perm ((List.perm_cons_erase ha).append_right rs)

end Rules

/-! ## Runs -/

/-- Steps from `c` have led to what the program has. -/
def Reached (c : Config) (s : State) : Prop := At c (s.handles ++ s.automatic) s.world

variable {c : Config} {s : State}

theorem Reached.step (h : Reached c s) (o : Operation) : Reached c (s.step o) := by
  unfold State.step
  split
  · rename_i ho
    have := program_at (c := c) o ho.1 ho.2 s.world h
    rcases hr : o.program s.world with ⟨r, w⟩
    rw [hr] at this
    cases r with
    | ok new =>
      exact (List.append_assoc _ _ _ ▸ this : At c (new ++ s.handles.diff o.spent ++ s.automatic) w)
    | error e => exact this
  · exact h

theorem Reached.run (h : Reached c s) (os : List Operation) : Reached c (s.run os) := by
  induction os generalizing s with
  | nil => exact h
  | cons o os ih => exact ih (h.step o)

def start : Config := configOf State.initial.world.toStore [] none

theorem sound_start : Sound start where
  balanced := Balanced.empty
  typed := by simp [start, State.initial, configOf, objects]
  below := by simp [start, State.initial, configOf, objects]
  owned := by simp [start, State.initial, configOf, objects]
  numbered := by simp [start, State.initial, configOf, Config.trace, traceOf]
  null := by simp [start, State.initial, configOf, objects]
  calls := by simp [start, State.initial, configOf, Config.trace, traceOf]

theorem exclusive_start : Exclusive start := ⟨Ledger.empty, fun _ h => nomatch h⟩

/-- What the program has as a configuration. -/
def configAt (s : State) : Config :=
  configOf s.world.toStore (ptrs s.world ++ (s.handles ++ s.automatic)) none

theorem reached_run (os : List Operation) : Reached start (State.initial.run os) :=
  Reached.run ⟨sound_start, .refl⟩ os

theorem exclusive_run (os : List Operation) : Exclusive (configAt (State.initial.run os)) :=
  (reached_run os).steps.exclusive sound_start exclusive_start

end CloudSsh.OperationSteps
