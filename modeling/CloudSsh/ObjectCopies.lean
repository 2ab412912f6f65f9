import CloudSsh.OperationSteps

/-!
# Copies of the objects themselves

Whatever is copied and assigned, the heap stays sound. Copies that duplicate no handle
are sequences of ownership steps like the other operations.
-/
namespace CloudSsh.ObjectCopies
open CountedHeap ScopedPrograms ResourceTraces Calls OwnershipLedger LibraryCalls WrapperObjects
open WrapperClasses PublicOperations OwnershipSteps OperationSteps

variable {rs : List Addr} {w : World} {a b : Addr} {o : Wrapper} {s : State}

/-- The program holds the pointers `rs` in a sound world. -/
def SoundAt (rs : List Addr) (w : World) : Prop := Sound (configOf w.toStore (ptrs w ++ rs) none)

theorem SoundAt.here (h : SoundAt rs w) : At (configOf w.toStore (ptrs w ++ rs) none) rs w :=
  ⟨h, .refl⟩

/-- A member is assigned to, and the handle with it. -/
theorem SoundAt.assign {d e : Cell Addr Wrapper} {new : List Addr} (old : Option Addr)
    (h : SoundAt (new ++ rs) w) (hd : cellAt w.heap a = some d) (he : cellAt w.heap b = some e)
    (hkind : o.kind = d.obj.kind) (hkind' : o.kind = e.obj.kind) (hraw : o.raw = e.obj.raw)
    (hperm : (o.members ++ old.toList).Perm (d.obj.members ++ new)) :
    ∃ w', WrapperObjects.assign a o old w = (.ok (), w') ∧ SoundAt rs w' ∧
      ∀ p ∈ objects w'.heap, p ∈ objects (setObj a o w.heap) := by
  have hs : Sound (configOf w.toStore (new ++ (ptrs w ++ rs)) none) :=
    { h with balanced := h.balanced.perm (List.perm_append_comm_assoc _ _ _) }
  have hover : Sound (configOf (w.toStore.overwrite a o) (old.toList ++ (ptrs w ++ rs)) none) :=
    (ObjectStep.overwrite hd he hkind hkind' hraw hperm rfl).sound hs
  obtain ⟨w', hassign, hptr, hreach, hsub⟩ := assign_reach ⟨hover, .refl⟩ (.inl rfl)
  refine ⟨w', hassign, ?_, hsub⟩
  rw [← hptr] at hreach
  exact hreach.sound

/-- What the object at `a` holds is there. -/
private theorem members_there {c : Config} (h : At c rs w) {d : Cell Addr Wrapper}
    (hd : cellAt w.heap a = some d) : ∀ m ∈ d.obj.members, m ∈ addrs w.heap := fun m hm =>
  h.sound.balanced.closed m (List.mem_append_right _
    (mem_refs.mpr ⟨_, mem_objects_of_cellAt hd, hm⟩))

/-- The same objects are still where they were. -/
private theorem still_there {c : Config} {rs' : List Addr} {w' : World} (h : At c rs w)
    (h' : At c rs' w') (ho : objects w'.heap = objects w.heap) {d : Cell Addr Wrapper}
    (hd : cellAt w.heap a = some d) : ∃ d', cellAt w'.heap a = some d' ∧ d'.obj = d.obj := by
  have ha : a ∈ addrs w'.heap := mem_addrs.mpr ⟨_, ho ▸ mem_objects_of_cellAt hd, rfl⟩
  obtain ⟨d', hd', -⟩ := h'.object ha
  refine ⟨d', hd', ?_⟩
  have := eq_of_mem_objects h.sound.balanced.nodup hd (ho ▸ mem_objects_of_cellAt hd') rfl
  exact (Prod.mk.inj this).2

theorem copyObject_sound (ha : a ∈ rs) :
    Triple (SoundAt rs) (copyObject a) (fun v => SoundAt (v.toList ++ rs))
      (fun _ => SoundAt rs) := by
  refine Triple.bindView fun w hw => ?_
  obtain ⟨d, hd, -⟩ := hw.here.object (hw.here.addr ha)
  have hat : objectAt a w = some d.obj := by simp [objectAt, hd]
  rw [hat]
  have hmem : ∀ m ∈ d.obj.members, ∃ p ∈ objects w.heap, p.1 = m := fun m hm =>
    mem_addrs.mp (members_there hw.here hd m hm)
  refine Triple.bind ((shareAll_rule hmem).of_eq ⟨hw.here, rfl⟩) fun _ => ?_
  rintro w' ⟨h', ho⟩
  obtain ⟨d', hd', hobj⟩ := still_there hw.here h' ho hd
  have hs : Sound (configOf w'.toStore (d'.obj.members ++ (ptrs w' ++ rs)) none) :=
    { h'.sound with balanced := h'.sound.balanced.perm (hobj ▸ List.perm_append_comm_assoc _ _ _) }
  have hcopy := (ObjectStep.copy hd' rfl).sound hs
  rw [hobj] at hcopy
  exact { hcopy with balanced := hcopy.balanced.perm List.perm_middle.symm }

/-- Shared pointers are copied into an object's members, and a handle with them. -/
private theorem assignMembers_sound {d e : Cell Addr Wrapper} (new : List Addr) (old : Option Addr)
    (h : SoundAt rs w) (hd : cellAt w.heap a = some d) (he : cellAt w.heap b = some e)
    (hnew : ∀ m ∈ new, m ∈ addrs w.heap) (hkind : o.kind = d.obj.kind)
    (hkind' : o.kind = e.obj.kind) (hraw : o.raw = e.obj.raw)
    (hperm : (o.members ++ old.toList).Perm (d.obj.members ++ new)) :
    ∃ w', (do shareAll new; assign a o old : M Unit) w = (.ok (), w') ∧ SoundAt rs w' ∧
      ∀ p ∈ objects w'.heap, p = (a, o) ∨ p ∈ objects w.heap ∧ p.1 ≠ a := by
  have hshare := shareAll_rule (E := fun _ _ => False) (fun m hm => mem_addrs.mp (hnew m hm)) w
    ⟨h.here, rfl⟩
  rcases hr : shareAll new w with ⟨r, w₁⟩
  rw [hr] at hshare
  cases r with
  | error e => exact hshare.elim
  | ok u =>
    obtain ⟨h₁, ho⟩ := hshare
    obtain ⟨d', hd', hobj⟩ := still_there h.here h₁ ho hd
    obtain ⟨e', he', hobj'⟩ := still_there h.here h₁ ho he
    obtain ⟨w', hassign, hw', hsub⟩ := SoundAt.assign old h₁.sound hd' he' (hobj ▸ hkind)
      (hobj' ▸ hkind') (hobj' ▸ hraw) (hobj ▸ hperm)
    refine ⟨w', (bind_ok hr _).trans hassign, hw', fun p hp => ?_⟩
    exact (mem_objects_setObj.mp (hsub p hp)).imp And.left fun h => ⟨ho ▸ h.1, h.2⟩

private theorem swap_ends (l l' : List Addr) (m : Addr) :
    (l ++ [m] ++ l').Perm (l' ++ [m] ++ l) :=
  List.perm_iff_count.mpr fun _ => by simp only [List.count_append]; omega

theorem assignObject_sound (ha : a ∈ rs) (hb : b ∈ rs) :
    Triple (SoundAt rs) (assignObject a b) (fun _ => SoundAt rs) (fun _ => SoundAt rs) := by
  refine Triple.bindView fun w hw => Triple.bindView ?_
  rintro _ rfl
  obtain ⟨d, hd, -⟩ := hw.here.object (hw.here.addr ha)
  obtain ⟨e, he, -⟩ := hw.here.object (hw.here.addr hb)
  have hat : objectAt a w = some d.obj := by simp [objectAt, hd]
  have hat' : objectAt b w = some e.obj := by simp [objectAt, he]
  have hthere := members_there hw.here he
  rw [hat, hat']
  rcases d with ⟨a', n, o⟩
  rcases e with ⟨b', n', o'⟩
  cases o <;> cases o' <;> try exact Triple.known rfl hw
  case socket.socket h h' =>
    obtain ⟨w', hassign, hw', -⟩ :=
      assignMembers_sound [] none (o := .socket h') hw hd he (by simp) rfl rfl rfl (.refl _)
    exact Triple.known hassign hw'
  case session.session h lib sock h' lib' sock' =>
    -- `_libssh2` first, then `sock`
    obtain ⟨w₁, hassign₁, hw₁, hsub⟩ := assignMembers_sound [⟨.libssh2, lib'⟩]
      (some ⟨.libssh2, lib⟩) (o := .session h' lib' sock) hw hd he
      (by simpa using hthere _ (by simp [Wrapper.members])) rfl rfl rfl
      (by simpa [Wrapper.members] using (List.Perm.swap _ _ _).append_left _)
    have hone : ∀ p ∈ objects w₁.heap, p.1 = a → p = (a, .session h' lib' sock) := fun p hp hpa =>
      (hsub p hp).resolve_right fun h => h.2 hpa
    obtain ⟨d₁, hd₁, hobj⟩ := hw₁.here.object_eq (List.mem_append_right _ ha) hone
    have hsock : ∀ m ∈ (sock'.map (Addr.mk .socket)).toList, m ∈ addrs w₁.heap := by
      obtain ⟨e₁, he₁, -⟩ := hw₁.here.object (hw₁.here.addr hb)
      intro m hm
      refine members_there hw₁.here he₁ m ?_
      rcases hsub _ (mem_objects_of_cellAt he₁) with heq | ⟨hold, -⟩
      · obtain ⟨rfl, hobj₁⟩ := Prod.mk.inj heq
        have hsame : sock = sock' := by
          have := hd.symm.trans he
          simp_all
        rw [hobj₁, hsame]
        exact List.mem_append_left _ hm
      · have heq := (Prod.mk.inj (eq_of_mem_objects hw.balanced.nodup he hold rfl)).2
        rw [heq]
        exact List.mem_append_left _ hm
    obtain ⟨w₂, hassign₂, hw₂, -⟩ := assignMembers_sound (sock'.map (Addr.mk .socket)).toList
      (sock.map (Addr.mk .socket)) (o := .session h' lib' sock') hw₁ hd₁ hd₁
      hsock (by rw [hobj]; rfl) (by rw [hobj]; rfl) (by rw [hobj]; rfl)
      (by rw [hobj]; exact swap_ends _ _ _)
    refine Triple.known (a := ()) ?_ hw₂
    exact (bind_ok hassign₁ fun _ => (do
      shareAll (sock'.map (Addr.mk .socket)).toList
      assign a (.session h' lib' sock') (sock.map (Addr.mk .socket)) : M Unit)).trans hassign₂
  case channel.channel h s h' s' =>
    obtain ⟨w', hassign, hw', -⟩ := assignMembers_sound [⟨.session, s'⟩] (some ⟨.session, s⟩)
      (o := .channel h' s') hw hd he
      (by simpa using hthere _ (by simp [Wrapper.members])) rfl rfl rfl (.swap _ _ _)
    exact Triple.known hassign hw'
  case listener.listener h s h' s' =>
    obtain ⟨w', hassign, hw', -⟩ := assignMembers_sound [⟨.session, s'⟩] (some ⟨.session, s⟩)
      (o := .listener h' s') hw hd he
      (by simpa using hthere _ (by simp [Wrapper.members])) rfl rfl rfl (.swap _ _ _)
    exact Triple.known hassign hw'
  case ssh.ssh k k' =>
    obtain ⟨w', hassign, hw', -⟩ := assignMembers_sound (k'.map (Addr.mk .channel)).toList
      (k.map (Addr.mk .channel)) (o := .ssh k') hw hd he
      hthere rfl rfl rfl List.perm_append_comm
    exact Triple.known hassign hw'

/-! ## Runs with copies -/

/-- What the program has is sound. -/
abbrev SoundState (s : State) : Prop := SoundAt (s.handles ++ s.automatic) s.world

/-- What every way to change the objects keeps, an operation on them keeps. -/
theorem objectStep_keeps {P : List Addr → World → Prop} {o : ObjectOperation}
    (h : P (s.handles ++ s.automatic) s.world)
    (hperm : ∀ {rs rs' w}, P rs w → rs.Perm rs' → P rs' w)
    (hdrop : ∀ {a rs w}, P (a :: rs) w → P rs (w.onStore (Store.drop a)))
    (hthrough : ∀ o', o = .through o' →
      P ((s.step o').handles ++ (s.step o').automatic) (s.step o').world)
    (hcopy : ∀ a shared rs, o = .copy a shared → a ∈ rs →
      Triple (P rs) (copyObject a) (fun v => P (v.toList ++ rs)) (fun _ => P rs))
    (hassign : ∀ kind a b rs, o = .assign kind a b → ⟨kind, a⟩ ∈ rs → ⟨kind, b⟩ ∈ rs →
      Triple (P rs) (assignObject ⟨kind, a⟩ ⟨kind, b⟩) (fun _ => P rs) (fun _ => P rs)) :
    P ((s.objectStep o).handles ++ (s.objectStep o).automatic) (s.objectStep o).world := by
  cases o with
  | through o => exact hthrough o rfl
  | copy a shared =>
    simp only [State.objectStep]
    split
    · rename_i ha
      have := hcopy a shared _ rfl ha s.world h
      rcases hr : copyObject a s.world with ⟨r, w⟩
      rw [hr] at this
      rcases r with e | _ | b
      · exact this
      · exact this
      · cases shared with
        | true => exact this
        | false =>
          have hp : (s.handles ++ b :: s.automatic).Perm _ := List.perm_middle
          exact hperm this hp.symm
    · exact h
  | assign kind a b =>
    simp only [State.objectStep]
    split
    · rename_i hab
      have := hassign kind a b _ rfl hab.1 hab.2 s.world h
      rcases hr : assignObject ⟨kind, a⟩ ⟨kind, b⟩ s.world with ⟨r, w⟩
      rw [hr] at this
      cases r with
      | ok v => exact this
      | error e => exact this
    · exact h
  | leave a =>
    simp only [State.objectStep]
    split
    · rename_i ha
      exact hdrop (hperm h (((List.perm_cons_erase ha).append_left _).trans List.perm_middle))
    · exact h

theorem objectStep_sound (h : SoundState s) (o : ObjectOperation) : SoundState (s.objectStep o) :=
  objectStep_keeps (P := SoundAt) h (fun h hp => (h.here.perm hp).sound)
    (fun h => h.here.drop.sound) (fun o' _ => (Reached.step (c := configAt s) h.here o').sound)
    (fun _ _ _ _ ha => copyObject_sound ha) fun _ _ _ _ _ ha hb => assignObject_sound ha hb

theorem objectRun_sound (h : SoundState s) (os : List ObjectOperation) :
    SoundState (s.objectRun os) := by
  induction os generalizing s with
  | nil => exact h
  | cons o os ih => exact ih (objectStep_sound h o)

theorem sound_objectRun (os : List ObjectOperation) : SoundState (State.initial.objectRun os) :=
  objectRun_sound sound_start os

/-- How many members deep the objects of a class can be. -/
def depth : Kind → ℕ
  | .libssh2 | .socket => 0
  | .session => 1
  | .channel | .listener => 2
  | .ssh => 3

theorem depth_members (o : Wrapper) : ∀ m ∈ o.members, depth m.kind < depth o.kind := by
  cases o with
  | libssh2 lib => simp [Wrapper.members]
  | socket sock => simp [Wrapper.members]
  | session session lib sock => cases sock <;> simp [Wrapper.members, Wrapper.kind, depth]
  | channel channel session => simp [Wrapper.members, Wrapper.kind, depth]
  | listener listener session => simp [Wrapper.members, Wrapper.kind, depth]
  | ssh channel => cases channel <;> simp [Wrapper.members, Wrapper.kind, depth]

/-- However objects were copied and assigned, no object is left when the program has given up all
that it had. -/
theorem nothing_left (os : List ObjectOperation)
    (hptr : (State.initial.objectRun os).world.ptr = none)
    (hhandles : (State.initial.objectRun os).handles = [])
    (hautomatic : (State.initial.objectRun os).automatic = []) :
    (State.initial.objectRun os).world.heap = [] := by
  have hs := sound_objectRun os
  have hb : Balanced layout (State.initial.objectRun os).world.heap [] := by
    have hroots := hs.balanced
    simpa [configOf, ptrs, hptr, hhandles, hautomatic] using hroots
  refine hb.eq_nil (fun a => depth a.kind) fun d hd m hm => ?_
  have hkind := hs.typed (d.addr, d.obj) (mem_objects.mpr ⟨d, hd, rfl⟩)
  rw [show d.addr.kind = d.obj.kind from hkind]
  exact depth_members d.obj m hm

/-! ## Copies that duplicate no handle -/

/-- Only objects without a handle of their own are copied, or objects are assigned to themselves;
`Libssh2` has no members to assign. -/
def CopyFree : ObjectOperation → Prop
  | .copy a _ => a.kind = .ssh
  | .assign kind a b => a = b ∨ kind = .libssh2 ∨ kind = .ssh
  | _ => True

variable {c : Config}

/-- An object is assigned what it holds. -/
private theorem assignSelf_at {d : Cell Addr Wrapper} (old : Option Addr)
    (h : At c rs w) (ha : a ∈ rs)
    (hd : cellAt w.heap a = some d) (hold : ∀ m ∈ old.toList, m ∈ d.obj.members) :
    ∃ w' d', (do shareAll old.toList; assign a d.obj old : M Unit) w = (.ok (), w') ∧ At c rs w' ∧
      cellAt w'.heap a = some d' ∧ d'.obj = d.obj := by
  have hshare := shareAll_rule (c := c) (E := fun _ _ => False)
    (fun m hm => mem_addrs.mp (members_there h hd m (hold m hm))) w ⟨h, rfl⟩
  rcases hr : shareAll old.toList w with ⟨r, w₁⟩
  rw [hr] at hshare
  cases r with
  | error e => exact hshare.elim
  | ok u =>
    obtain ⟨h₁, ho⟩ := hshare
    obtain ⟨d₁, hd₁, hobj⟩ := still_there h h₁ ho hd
    have hset : setObj a d.obj w₁.heap = w₁.heap :=
      hobj ▸ setObj_self h₁.sound.balanced.nodup hd₁
    have hover : w₁.toStore.overwrite a d.obj = w₁.toStore := by rw [Store.overwrite, hset]
    have hreach : Reach c (w₁.toStore.overwrite a d.obj) (old.toList ++ (ptrs w₁ ++ rs)) none := by
      rw [hover]
      exact Reach.perm h₁ (List.perm_append_comm_assoc _ _ _)
    obtain ⟨w', hassign, hptr, hw', hsub⟩ := assign_reach hreach (.inl rfl)
    have hone : ∀ p ∈ objects w'.heap, p.1 = a → p = (a, d.obj) := fun p hp hpa =>
      hobj ▸ eq_of_mem_objects h₁.sound.balanced.nodup hd₁ (hset ▸ hsub p hp) hpa
    obtain ⟨d', hd', hobj'⟩ := hw'.object_eq (List.mem_append_right _ ha) hone
    rw [← show ptrs w' = ptrs w₁ from hptr] at hw'
    exact ⟨w', d', (bind_ok hr _).trans hassign, hw', hd', hobj'⟩

theorem assignObject_self_at (ha : a ∈ rs) :
    Triple (At c rs) (assignObject a a) (fun _ => At c rs) (fun _ => At c rs) := by
  refine Triple.bindView fun w hw => Triple.bindView ?_
  rintro _ rfl
  obtain ⟨d, hd, -⟩ := hw.object (hw.addr ha)
  have hat : objectAt a w = some d.obj := by simp [objectAt, hd]
  rw [hat]
  have hself := fun old hold => assignSelf_at old hw ha hd hold
  cases ho : d.obj with
  | libssh2 lib => exact Triple.known rfl hw
  | socket h =>
    obtain ⟨w', -, hassign, hw', -⟩ := hself none (by simp)
    rw [ho] at hassign
    exact Triple.known hassign hw'
  | session h lib sock =>
    obtain ⟨w₁, d₁, hassign₁, hw₁, hd₁, hobj⟩ := hself (some ⟨.libssh2, lib⟩)
      (by simp [ho, Wrapper.members])
    obtain ⟨w₂, -, hassign₂, hw₂, -⟩ := assignSelf_at (sock.map (Addr.mk .socket)) hw₁ ha hd₁
      (by rw [hobj, ho]; exact fun m hm => List.mem_append_left _ hm)
    rw [hobj, ho] at hassign₂
    rw [ho] at hassign₁
    refine Triple.known (a := ()) ?_ hw₂
    exact (bind_ok hassign₁ fun _ => (do
      shareAll (sock.map (Addr.mk .socket)).toList
      assign a (.session h lib sock) (sock.map (Addr.mk .socket)) : M Unit)).trans hassign₂
  | channel h s =>
    obtain ⟨w', -, hassign, hw', -⟩ := hself (some ⟨.session, s⟩) (by simp [ho, Wrapper.members])
    rw [ho] at hassign
    exact Triple.known hassign hw'
  | listener h s =>
    obtain ⟨w', -, hassign, hw', -⟩ := hself (some ⟨.session, s⟩) (by simp [ho, Wrapper.members])
    rw [ho] at hassign
    exact Triple.known hassign hw'
  | ssh k =>
    obtain ⟨w', -, hassign, hw', -⟩ :=
      hself (k.map (Addr.mk .channel)) (by simp [ho, Wrapper.members])
    rw [ho] at hassign
    exact Triple.known hassign hw'

theorem copyObject_ssh_at {ssh : ℕ} (hs : ⟨.ssh, ssh⟩ ∈ rs) :
    Triple (At c rs) (copyObject ⟨.ssh, ssh⟩) (fun v => At c (v.toList ++ rs))
      (fun _ => At c rs) := by
  refine Triple.bindView fun w hw => ?_
  obtain ⟨d, channel, hd, ho, hat⟩ := hw.ssh (hw.addr hs)
  rw [hat]
  have hmem : ∀ m ∈ (Wrapper.ssh channel).members, ∃ p ∈ objects w.heap, p.1 = m := fun m hm =>
    mem_addrs.mp (members_there hw hd m (ho ▸ hm))
  refine Triple.bind ((shareAll_rule hmem).of_eq ⟨hw, rfl⟩) fun _ => ?_
  exact fun w' h => At.adopt (o := .ssh channel) h.1 (by simp [Wrapper.raw]) fun _ => .inl rfl

theorem assignObject_ssh_at {a b : ℕ} (ha : ⟨.ssh, a⟩ ∈ rs) (hb : ⟨.ssh, b⟩ ∈ rs) :
    Triple (At c rs) (assignObject ⟨.ssh, a⟩ ⟨.ssh, b⟩) (fun _ => At c rs) (fun _ => At c rs) := by
  refine Triple.bindView fun w hw => Triple.bindView ?_
  rintro _ rfl
  obtain ⟨d, k, hd, ho, hat⟩ := hw.ssh (hw.addr ha)
  obtain ⟨e, k', he, ho', hat'⟩ := hw.ssh (hw.addr hb)
  rw [hat, hat']
  have hmem : ∀ m ∈ (k'.map (Addr.mk .channel)).toList, ∃ p ∈ objects w.heap, p.1 = m :=
    fun m hm => mem_addrs.mp (members_there hw he m (ho' ▸ hm))
  refine Triple.bind ((shareAll_rule hmem).of_eq ⟨hw, rfl⟩) fun _ => ?_
  rintro w₁ ⟨h₁, hobj⟩
  obtain ⟨d₁, hd₁, ho₁⟩ := still_there hw h₁ hobj hd
  obtain ⟨w', hassign, hw', -⟩ := h₁.assignSsh ha hd₁ (ho₁.trans ho)
  exact Triple.known hassign hw' w₁ rfl

theorem assignObject_libssh2_at {a b : ℕ} (ha : ⟨.libssh2, a⟩ ∈ rs) :
    Triple (At c rs) (assignObject ⟨.libssh2, a⟩ ⟨.libssh2, b⟩) (fun _ => At c rs)
      (fun _ => At c rs) := by
  refine Triple.bindView fun w hw => Triple.bindView ?_
  rintro _ rfl
  obtain ⟨d, hd, hkind⟩ := hw.object (hw.addr ha)
  obtain ⟨lib, ho⟩ : ∃ lib, d.obj = .libssh2 lib := by
    cases hobj : d.obj <;> simp_all [Wrapper.kind]
  have hat : objectAt ⟨.libssh2, a⟩ w = some (.libssh2 lib) := by simp [objectAt, hd, ho]
  rw [hat]
  exact Triple.known rfl hw

theorem objectStep_reached (h : Reached c s) {o : ObjectOperation} (hfree : CopyFree o) :
    Reached c (s.objectStep o) := by
  refine objectStep_keeps (P := At c) h (fun h hp => h.perm hp) (fun h => h.drop)
    (fun o' _ => h.step o') ?_ ?_
  · rintro ⟨kind, ssh⟩ shared rs rfl ha
    obtain rfl : kind = .ssh := hfree
    exact copyObject_ssh_at ha
  · rintro kind a b rs rfl ha hb
    rcases hfree with rfl | rfl | rfl
    · exact assignObject_self_at ha
    · exact assignObject_libssh2_at ha
    · exact assignObject_ssh_at ha hb

theorem objectRun_reached (h : Reached c s) {os : List ObjectOperation}
    (hfree : ∀ o ∈ os, CopyFree o) : Reached c (s.objectRun os) := by
  induction os generalizing s with
  | nil => exact h
  | cons o os ih =>
    exact ih (objectStep_reached h (hfree o List.mem_cons_self)) fun o' ho' =>
      hfree o' (List.mem_cons_of_mem _ ho')

theorem exclusive_objectRun {os : List ObjectOperation} (hfree : ∀ o ∈ os, CopyFree o) :
    Exclusive (configAt (State.initial.objectRun os)) :=
  (objectRun_reached ⟨sound_start, .refl⟩ hfree).steps.exclusive sound_start exclusive_start

end CloudSsh.ObjectCopies
