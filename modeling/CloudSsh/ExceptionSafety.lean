import CloudSsh.Confinement
import CloudSsh.ObjectCopies

/-!
# What an exception leaves

An operation that throws leaves the objects as they were: their counts, their handles and
the shared pointers they hold (`Socket::sin`, which `connect` writes before it throws, is
not one of these). The one thing that may be new is the library, held by `Libssh2::ptr`. No
program that throws overwrites a handle or a shared pointer of an object that was there
before, and what is new and is held by nobody is gone when the scopes have been left.
-/
namespace CloudSsh.ExceptionSafety
open CountedHeap ScopedPrograms LibraryCalls WrapperObjects WrapperClasses PublicOperations
open OwnershipSteps OperationSteps ObjectCopies Confinement

variable {α β : Type} {n : ℕ} {os : List (Addr × Wrapper)} {ptr : Option ℕ} {w w' : World}
  {c : Config} {rs : List Addr}

/-- The objects with numbers below `n` are among `os`, and `Libssh2::ptr` is as it was or points
to a new object. -/
structure Old (n : ℕ) (os : List (Addr × Wrapper)) (ptr : Option ℕ) (w : World) : Prop where
  next : n ≤ w.nextObject
  same : ∀ p ∈ objects w.heap, p.1.id < n → p ∈ os
  static : w.ptr = ptr ∨ ptr = none ∧ ∃ k, n ≤ k ∧ w.ptr = some k

/-- Any call, but only new objects are overwritten. -/
def onlyNew (n : ℕ) : Limits := ⟨fun _ => True, fun a => n ≤ a.id, False⟩

theorem old_closed (n : ℕ) (os : List (Addr × Wrapper)) (ptr : Option ℕ) :
    Closed (onlyNew n) (Old n os ptr) where
  issue _ h := ⟨h.next, h.same, h.static⟩
  obtain _ h := ⟨h.next, h.same, h.static⟩
  share h := ⟨h.next, fun p hp => h.same p (by rwa [← objects_retain]), h.static⟩
  place {o w} h := by
    refine ⟨Nat.le_succ_of_le h.next, fun p hp hlt => ?_, h.static⟩
    rcases List.mem_cons.mp hp with rfl | hp
    · exact absurd hlt (Nat.not_lt.mpr h.next)
    · exact h.same p hp hlt
  overwrite {a o w} ha h := by
    refine ⟨h.next, fun p hp hlt => ?_, h.static⟩
    rcases mem_objects_setObj.mp hp with ⟨rfl, -⟩ | ⟨hp, -⟩
    · exact absurd hlt (Nat.not_lt.mpr ha)
    · exact h.same p hp hlt
  drop h := ⟨h.next, fun p hp => h.same p (mem_objects_release hp), h.static⟩
  static h := h.elim

/-! ## What the programs keep -/

theorem Confined.old {p : M α} (hp : Confined (onlyNew n) p) :
    Triple (Old n os ptr) p (fun _ => Old n os ptr) fun _ => Old n os ptr :=
  hp _ (old_closed n os ptr)

theorem holding_old {p : M α} {a : Addr}
    (h : Triple (Old n os ptr) p (fun _ => Old n os ptr) fun _ => Old n os ptr) :
    Triple (Old n os ptr) (holding a p) (fun _ => Old n os ptr) fun _ => Old n os ptr :=
  Triple.ensuring h (fun _ _ h => (old_closed _ _ _).drop h) fun _ _ h => (old_closed _ _ _).drop h

theorem any_call (x : Call) (_ : NoSocket x) : (onlyNew n).calls x := trivial

/-- The only program that sets `Libssh2::ptr`: it points to the object that was just made. -/
theorem create_old (rc : Int) :
    Triple (Old n os ptr) (Libssh2.create rc) (fun _ => Old n os ptr) fun _ => Old n os ptr := by
  have hc := old_closed n os ptr
  refine Triple.bindView fun w hw => ?_
  cases hp : w.ptr with
  | some k =>
    rintro _ rfl
    exact hc.share hw
  | none =>
    have hnull : ptr = none := by
      rcases hw.static with h | ⟨h, -⟩
      · exact h.symm.trans hp
      · exact h
    refine acquire_bind ?_ ?_
    · rintro _ rfl _ rfl
      exact hc.issue trivial hw
    · rintro _ rfl _ rfl
      have hplaced := hc.place (o := .libssh2 w.nextHandle)
        (hc.obtain (x := .init rc (some w.nextHandle))
        trivial hw)
      exact hc.share ⟨hplaced.next, hplaced.same, .inr ⟨hnull, w.nextObject, hw.next, rfl⟩⟩

theorem socketCreate_confined (hostaddr : Option Bytes) (port : Int16) (net : Network)
    (domain type protocol : Int) :
    Confined (onlyNew n) (Socket.create hostaddr port net domain type protocol) := by
  refine .bind (.acquire _ fun _ => trivial) fun fd => ?_
  cases fd with
  | none => exact .raise _
  | some fd =>
    cases hostaddr with
    | none => exact .place _
    | some host => exact .bind (connectOn_confined any_call _ _ _ _) fun _ => .place _

/-- An object that is made gets a new number. -/
theorem place_new {E : Exn → World → Prop} (o : Wrapper) :
    Triple (Old n os ptr) (place o) (fun k w => Old n os ptr w ∧ n ≤ k) E := fun _ h =>
  ⟨(old_closed _ _ _).place h, h.next⟩

theorem newSession_new (lib : ℕ) (granted : Bool) :
    Triple (Old n os ptr) (Libssh2.newSession lib granted) (fun s w => Old n os ptr w ∧ n ≤ s)
      fun _ => Old n os ptr := by
  have hc := old_closed n os ptr
  refine Triple.bind (Confined.old (.share _)) fun _ => ?_
  suffices h : Triple (Old n os ptr) _ (fun s w => Old n os ptr w ∧ n ≤ s)
    fun _ => Old n os ptr from
    Triple.ensuring h (fun _ _ h => ⟨hc.drop h.1, h.2⟩) fun _ _ h => hc.drop h
  refine Triple.bind (Confined.old (.view _)) fun _ => ?_
  refine Triple.bind (Confined.old (.acquire _ fun _ => trivial)) fun _ => ?_
  exact Triple.bind (Confined.old (.share _)) fun _ => place_new _

theorem construct_old (account : Account) (r : Answers) :
    Triple (Old n os ptr) (SSH.construct account r) (fun _ => Old n os ptr)
      fun _ => Old n os ptr := by
  refine Triple.bind (place_new _) fun ssh => Triple.assuming fun hssh => ?_
  refine Triple.unwinding (fun _ => Old n os ptr) ?_ fun _ _ h => (old_closed _ _ _).drop h
  refine Triple.bind (create_old r.init) fun lib => holding_old ?_
  refine Triple.bind (Confined.old (socketCreate_confined _ _ _ _ _ _)) fun sock => holding_old ?_
  refine Triple.bind (newSession_new _ _) fun s => Triple.assuming fun hs =>
    holding_old (Confined.old ?_)
  refine .bind (handshake_confined any_call hs _ _) fun _ => .bind (.raiseIf _ _) fun _ => ?_
  refine .bind (isAuthSupported_confined any_call _ _ _ _ _) fun _ =>
    .bind (.raiseIf _ _) fun _ => ?_
  refine .bind (passwordAuth_confined any_call _ _ _ _) fun _ => .bind (.raiseIf _ _) fun _ => ?_
  refine .bind (newChannel_confined any_call _ _) fun _ =>
    .bind (assignChannel_confined hssh _) fun _ => ?_
  exact .bind (shellOn_confined any_call _ _ _ _) fun _ => .pure ssh

theorem connectToSsh_old (account : Account) (r : Answers) :
    Triple (Old n os ptr) (connectToSsh account r) (fun _ => Old n os ptr)
      fun _ => Old n os ptr := by
  refine Triple.bind (create_old r.init) fun lib => holding_old ?_
  refine Triple.bind (Confined.old (socketCreate_confined _ _ _ _ _ _)) fun sock => holding_old ?_
  refine Triple.bind (newSession_new _ _) fun s => Triple.assuming fun hs =>
    holding_old (Confined.old ?_)
  refine .bind (handshake_confined any_call hs _ _) fun _ => .ite (.pure none) ?_
  refine .bind (isAuthSupported_confined any_call _ _ _ _ _) fun _ => .ite (.pure none) ?_
  refine .bind (passwordAuth_confined any_call _ _ _ _) fun _ => .ite (.pure none) ?_
  refine .bind (newChannel_confined any_call _ _) fun _ => .unwinding _ ?_
  exact .bind (shellOn_confined any_call _ _ _ _) fun _ => .pure _

/-! ## Programs that do not throw -/

abbrev NeverThrows (p : M α) : Prop := Triple (fun _ => True) p (fun _ _ => True) fun _ _ => False

theorem neverThrows_bind {p : M α} {f : α → M β} (hp : NeverThrows p)
    (hf : ∀ v, NeverThrows (f v)) :
    NeverThrows (p >>= f) := Triple.bind hp hf

theorem assign_neverThrows (a : Addr) (o : Wrapper) (old : Option Addr) :
    NeverThrows (assign a o old) := by
  refine neverThrows_bind (fun _ _ => trivial) fun _ => ?_
  cases old <;> exact fun _ _ => trivial

theorem shareAll_neverThrows (as : List Addr) : NeverThrows (shareAll as) := by
  induction as with
  | nil => exact fun _ _ => trivial
  | cons a as ih => exact neverThrows_bind (fun _ _ => trivial) fun _ => ih

theorem handshake_neverThrows (s sock : ℕ) (rc : Int) :
    NeverThrows (Session.handshake s sock rc) := by
  refine neverThrows_bind (fun _ _ => trivial) fun _ => ?_
  suffices h : NeverThrows _ from Triple.ensuring h (fun _ _ h => h) fun _ _ h => h
  refine neverThrows_bind (fun _ _ => trivial) fun o => ?_
  rcases o with _ | o
  · exact fun _ _ => trivial
  cases o with
  | session h lib old =>
    refine neverThrows_bind (fun _ _ => trivial) fun _ => ?_
    refine neverThrows_bind (assign_neverThrows _ _ _) fun _ => ?_
    exact neverThrows_bind (fun _ _ => trivial) fun _ => neverThrows_bind (fun _ _ => trivial)
      fun _ _ _ => trivial
  | _ => exact fun _ _ => trivial

theorem assignChannel_neverThrows (ssh : ℕ) (channel : Option ℕ) :
    NeverThrows (SSH.assignChannel ssh channel) := by
  refine neverThrows_bind (fun _ _ => trivial) fun o => ?_
  rcases o with _ | o
  · exact fun _ _ => trivial
  cases o with
  | ssh old => exact assign_neverThrows _ _ _
  | _ => exact fun _ _ => trivial

theorem resetPtr_neverThrows : NeverThrows resetPtr := by
  refine neverThrows_bind (fun _ _ => trivial) fun p => ?_
  cases p with
  | none => exact fun _ _ => trivial
  | some k => exact neverThrows_bind (fun _ _ => trivial) fun _ _ _ => trivial

/-- An operation that throws has overwritten nothing that was there before. -/
theorem program_old (o : Operation) :
    Triple (Old n os ptr) o.program (fun _ _ => True) fun _ => Old n os ptr := by
  have hkept : ∀ {p : M (List Addr)}, Triple (Old n os ptr) p (fun _ => Old n os ptr)
    (fun _ => Old n os ptr) →
      Triple (Old n os ptr) p (fun _ _ => True) fun _ => Old n os ptr := fun h =>
    h.post (fun _ _ _ => trivial) fun _ _ h => h
  have hnever : ∀ {p : M (List Addr)}, NeverThrows p →
      Triple (Old n os ptr) p (fun _ _ => True) fun _ => Old n os ptr := fun h =>
    (h.weaken fun _ _ => trivial).post (fun _ _ _ => trivial) fun _ _ h => h.elim
  cases o with
  | create rc => exact hkept (Triple.bind (create_old rc) fun _ => Triple.pure fun _ h => h)
  | socketCreate hostaddr port net domain type protocol =>
    exact hkept (Confined.old (.bind (socketCreate_confined _ _ _ _ _ _) fun _ => .pure _))
  | connect account r =>
    exact hkept (Triple.bind (construct_old account r) fun _ => Triple.pure fun _ h => h)
  | connectToSsh account r =>
    exact hkept (Triple.bind (connectToSsh_old account r) fun _ => Triple.pure fun _ h => h)
  | resetPtr => exact hnever (neverThrows_bind resetPtr_neverThrows fun _ _ _ => trivial)
  | handshake s sock rc =>
    exact hnever (neverThrows_bind (handshake_neverThrows s sock rc) fun _ _ _ => trivial)
  | assignChannel ssh channel =>
    exact hnever (neverThrows_bind (shareAll_neverThrows _) fun _ =>
      neverThrows_bind (assignChannel_neverThrows ssh channel) fun _ _ _ => trivial)
  | _ => exact hkept (Confined.old (program_confined any_call (fun h => h) trivial))

/-! ## Nothing new is left -/

private theorem depth_cells (h : SoundAt rs w) :
    ∀ d ∈ w.heap, ∀ m ∈ layout.members d.obj, depth m.kind < depth d.addr.kind := by
  intro d hd m hm
  have hkind := h.typed (d.addr, d.obj) (mem_objects.mpr ⟨d, hd, rfl⟩)
  rw [show d.addr.kind = d.obj.kind from hkind]
  exact depth_members d.obj m hm

/-- With the same pointers held, the objects are the same. -/
theorem same_of_old (h : SoundAt rs w) (h' : SoundAt rs w') (hptr : w'.ptr = w.ptr)
    (hold : ∀ p ∈ objects w'.heap, p.1.id < w.nextObject → p ∈ objects w.heap) (a : Addr) :
    cellAt w'.heap a = cellAt w.heap a := by
  have hb : Balanced layout w'.heap (ptrs w ++ rs) := by
    have := h'.balanced
    simpa [configOf, ptrs, hptr] using this
  refine Balanced.same h.balanced hb (fun a => depth a.kind) (depth_cells h) (depth_cells h') ?_ a
  intro p hp ha
  refine hold p hp ?_
  obtain ⟨q, hq, he⟩ := mem_addrs.mp ha
  rw [← he]
  exact h.below q hq

/-- The objects of `w'` are those of `w`, with the same counts, handles and shared pointers, but for
a library that `Libssh2::ptr` alone holds. -/
def Restored (w w' : World) : Prop :=
  (w'.ptr = w.ptr ∧ ∀ a, cellAt w'.heap a = cellAt w.heap a) ∨
    ∃ k lib, w.ptr = none ∧ w'.ptr = some k ∧ cellAt w.heap ⟨.libssh2, k⟩ = none ∧
      cellAt w'.heap ⟨.libssh2, k⟩ = some ⟨⟨.libssh2, k⟩, 1, .libssh2 lib⟩ ∧
      ∀ a, a ≠ ⟨.libssh2, k⟩ → cellAt w'.heap a = cellAt w.heap a

theorem restored_of_old (h : SoundAt rs w) (h' : SoundAt rs w')
    (hold : Old w.nextObject (objects w.heap) w.ptr w') : Restored w w' := by
  rcases hold.static with hptr | ⟨hnull, k, hk, hptr⟩
  · exact .inl ⟨hptr, same_of_old h h' hptr hold.same⟩
  -- without the new library the pointers held are those of before
  have hroots : ptrs w' = [⟨.libssh2, k⟩] := by simp [ptrs, hptr]
  have hat := h'.here
  rw [hroots] at hat
  have hdropped : SoundAt rs (({ w' with ptr := none } : World).onStore
    (Store.drop ⟨.libssh2, k⟩)) :=
    (Reach.release [⟨.libssh2, k⟩] (by rwa [At, hroots] at hat) (.inl rfl)).sound
  have hsame := same_of_old h hdropped hnull.symm fun p hp => hold.same p (mem_objects_release hp)
  have hnone : cellAt w.heap ⟨.libssh2, k⟩ = none := by
    cases hd : cellAt w.heap ⟨.libssh2, k⟩ with
    | none => rfl
    | some d => exact absurd (h.below _ (mem_objects_of_cellAt hd)) (Nat.not_lt.mpr hk)
  obtain ⟨d, hd, hkind⟩ := h'.here.object (a := ⟨.libssh2, k⟩)
    (Reach.addr h'.here (by simp [hroots]))
  obtain ⟨lib, hobj⟩ : ∃ lib, d.obj = .libssh2 lib := by
    cases hobj : d.obj <;> simp_all [Wrapper.kind]
  obtain ⟨hmem, haddr⟩ := cellAt_mem hd
  by_cases h1 : d.count ≤ 1
  · have hremoved : (({ w' with ptr := none } : World).onStore (Store.drop ⟨.libssh2, k⟩)).heap =
        remove ⟨.libssh2, k⟩ w'.heap := by
      simp [World.onStore, Store.drop, release_cons, dropOne_last hd h1, layout,
        hobj, Wrapper.members, release_nil]
    have hpos := h'.balanced.positive d hmem
    refine .inr ⟨k, lib, hnull, hptr, hnone, ?_, fun a ha => ?_⟩
    · rw [hd, ← haddr, ← hobj, show (1 : ℕ) = d.count by omega]
    · rw [← hsame a, hremoved, cellAt_remove_of_ne (Ne.symm ha)]
  · have hshared : (({ w' with ptr := none } : World).onStore (Store.drop ⟨.libssh2, k⟩)).heap =
        forget ⟨.libssh2, k⟩ w'.heap := by
      simp [World.onStore, Store.drop, release_cons, dropOne_shared hd h1, release_nil]
    obtain ⟨e, he⟩ := exists_cellAt (h := forget ⟨.libssh2, k⟩ w'.heap) (a := ⟨.libssh2, k⟩)
      (by rw [addrs_forget]; exact List.mem_map.mpr ⟨d, hmem, haddr⟩)
    have hgone := hsame ⟨.libssh2, k⟩
    rw [hshared, he, hnone] at hgone
    cases hgone

/-! ## Runs -/

/-- The program may make the operation, and it throws. -/
def Throws (s : State) (o : Operation) : Prop :=
  (∀ a ∈ o.pointers, a ∈ s.handles) ∧ (∀ a ∈ o.receivers, a ∈ s.handles ++ s.automatic) ∧
    ∃ e, (o.program s.world).1 = .error e

/-- In every run, whatever was copied and assigned in it: an operation that throws leaves the
pointers that the program holds as they were, and each object's count, handle and shared pointers,
but for the library. -/
theorem throw_restores (os : List ObjectOperation) (o : Operation)
    (h : Throws (State.initial.objectRun os) o) :
    let s := State.initial.objectRun os
    (s.step o).handles = s.handles ∧ (s.step o).automatic = s.automatic ∧
      Restored s.world (s.step o).world := by
  intro s
  obtain ⟨hp, hr, e, he⟩ := h
  have hs : SoundAt (s.handles ++ s.automatic) s.world := sound_objectRun os
  have hat := program_at
    (c := configOf s.world.toStore (ptrs s.world ++ (s.handles ++ s.automatic)) none)
    o hp hr s.world hs.here
  have hhere : Old s.world.nextObject (objects s.world.heap) s.world.ptr s.world :=
    ⟨Nat.le_refl _, fun p hp _ => hp, .inl rfl⟩
  have hold := program_old o s.world hhere
  have hstep : s.step o = { s with world := (o.program s.world).2 } := by
    unfold State.step
    rw [if_pos ⟨hp, hr⟩]
    rcases hrun : o.program s.world with ⟨res, w⟩
    rw [hrun] at he
    obtain rfl : res = .error e := he
    rfl
  rcases hrun : o.program s.world with ⟨res, w⟩
  rw [hrun] at hat hold he
  obtain rfl : res = .error e := he
  rw [hstep, hrun]
  exact ⟨rfl, rfl, restored_of_old hs hat.sound hold⟩

theorem throw_restores_refused :
    let s := State.initial.objectRun [.through (.connect ⟨some [], 22, [], []⟩
      ⟨⟨true, fun _ => 0, 0⟩, 0, true, 0, some (bytes "password"), false, 0, true, 0, 0⟩)]
    let s' := s.step (.connect ⟨some [], 22, [], []⟩
      ⟨⟨true, fun _ => 0, -1⟩, 0, true, 0, some [], false, 0, true, 0, 0⟩)
    s'.handles = s.handles ∧ s'.automatic = s.automatic ∧ Restored s.world s'.world :=
  throw_restores _ _ ⟨by simp [Operation.pointers], by simp [Operation.receivers],
    .runtimeError "Failed to connect.\n", rfl⟩

end CloudSsh.ExceptionSafety
