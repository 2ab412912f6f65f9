import CloudSsh.ObjectCopies

/-!
# The order of the releases, and their number

With shared pointers alone everything is released after what depends on it, and once.
Copying an object duplicates its handle, and the handle is then released twice.
-/
namespace CloudSsh.ReleaseDiscipline
open CountedHeap ResourceTraces Calls OwnershipLedger LibraryCalls WrapperObjects
open WrapperClasses PublicOperations OwnershipSteps OperationSteps ObjectCopies Relation

/-- The object at `a` holds the one at `b`. -/
def PointsTo (h : Objects) (a b : Addr) : Prop := ∃ p ∈ objects h, p.1 = a ∧ b ∈ p.2.members

/-- Whenever a resource is released, it is by the object that owns it, and no object is left that
holds that one, directly or through others. -/
def NoneLeftDepending (log : Log) : Prop :=
  ∀ e ∈ log, ∀ r, effect e.2 = .release r → (∃ p ∈ objects e.1, p.2.raw = some r) ∧
    ∀ p ∈ objects e.1, p.2.raw = some r → ∀ a, ¬ TransGen (PointsTo e.1) a p.1

theorem noneLeftDepending_of_alone {log : Log} (h : Alone log) : NoneLeftDepending log := by
  intro e he r hr
  obtain ⟨hheld, halone⟩ := h e he r hr
  refine ⟨hheld, fun p hp hpr a hpath => ?_⟩
  obtain ⟨b, -, q, hq, -, hm⟩ := (TransGen.tail'_iff).mp hpath
  exact halone p hp hpr q hq hm

/-- For every sequence of operations on shared pointers: what depends on a resource is released
before it, no call is given a handle that was released or that depends on one that was, and
nothing is released while an object that depends on it is left. -/
theorem released_in_order (os : List Operation) :
    Ordered (State.initial.run os).trace ∧ NoUseAfterRelease (State.initial.run os).trace ∧
      NoneLeftDepending (State.initial.run os).world.log := by
  have he := exclusive_run os
  exact ⟨he.ledger.isOrdered, he.ledger.noUse, noneLeftDepending_of_alone he.alone⟩

/-! ## Once -/

def exits (tr : Trace) : List ℕ := tr.filterMap fun
  | .exit lib => some lib
  | _ => none

/-- The initializations that succeeded. -/
def inits (tr : Trace) : List ℕ := tr.filterMap fun
  | .init _ (some lib) => some lib
  | _ => none

theorem effect_eq_release {x : Call} {lib : ℕ} :
    effect x = .release (.library lib) ↔ x = .exit lib := by
  change x.effect = _ ↔ _
  constructor
  · unfold Call.effect
    split <;> simp
  · rintro rfl
    rfl

theorem effect_eq_acquire {x : Call} {lib : ℕ} :
    (∃ on, effect x = .acquire (.library lib) on) ↔ ∃ ret, x = .init ret (some lib) := by
  change (∃ on, x.effect = _) ↔ _
  constructor
  · rintro ⟨on, h⟩
    unfold Call.effect at h
    split at h <;> simp_all
  · rintro ⟨ret, rfl⟩
    exact ⟨none, rfl⟩

theorem mem_exits {tr : Trace} {lib : ℕ} : lib ∈ exits tr ↔ Released tr (.library lib) := by
  simp only [exits, List.mem_filterMap, Released, effect_eq_release]
  refine exists_congr fun x => and_congr_right fun _ => ?_
  cases x <;> simp

theorem mem_inits {tr : Trace} {lib : ℕ} : lib ∈ inits tr ↔ Acquired tr (.library lib) := by
  simp only [inits, List.mem_filterMap, Acquired, effect_eq_acquire]
  refine exists_congr fun x => and_congr_right fun _ => ?_
  cases x <;> simp
  split <;> simp_all

theorem exits_nodup {tr : Trace} (h : ReleasedOnce tr) : (exits tr).Nodup := by
  induction tr using List.reverseRecOn with
  | nil => exact List.nodup_nil
  | append_singleton tr x ih =>
    obtain ⟨htr, hx⟩ := releasedOnce_concat.mp h
    rw [exits, List.filterMap_append]
    refine List.Nodup.append (ih htr) ?_ fun lib hmem hlib => ?_
    · cases x <;> simp
    · obtain rfl : x = .exit lib := by cases x <;> simp_all
      exact hx _ rfl (mem_exits.mp hmem)

/-- In every run that duplicates no handle by copying an object, every resource is released at
most once, and there are at most as many exits as initializations that succeeded. -/
theorem released_once (os : List ObjectOperation) (hfree : ∀ o ∈ os, CopyFree o) :
    ReleasedOnce (State.initial.objectRun os).trace ∧
      (exits (State.initial.objectRun os).trace).length ≤
        (inits (State.initial.objectRun os).trace).length := by
  have he := exclusive_objectRun hfree
  refine ⟨he.ledger.once, ?_⟩
  refine (List.subperm_of_subset (exits_nodup he.ledger.once) fun lib h => ?_).length_le
  exact mem_inits.mpr (he.ledger.released _ (mem_exits.mp h))

theorem released_once_copied_ssh :
    let tr := (State.initial.objectRun [.through (.connect ⟨some [], 22, [], []⟩
      ⟨⟨true, fun _ => 0, 0⟩, 0, true, 0, some (bytes "password"), false, 0, true, 0, 0⟩),
      .copy ⟨.ssh, 0⟩ false, .through (.dropHandle ⟨.ssh, 0⟩), .leave ⟨.ssh, 5⟩]).trace
    ReleasedOnce tr ∧ (exits tr).length ≤ (inits tr).length :=
  released_once _ (by simp [CopyFree])

/-- `Channel c(*ch)`: both destructors free the channel. -/
theorem copied_channel_freed_twice :
    ¬ ReleasedOnce (State.initial.objectRun [.through (.create 0), .through (.newSession 0 true),
      .through (.newChannel 1 true), .copy ⟨.channel, 2⟩ false, .leave ⟨.channel, 3⟩,
      .through (.dropHandle ⟨.channel, 2⟩)]).trace := by
  intro h
  have htrace : (State.initial.objectRun [.through (.create 0), .through (.newSession 0 true),
      .through (.newChannel 1 true), .copy ⟨.channel, 2⟩ false, .leave ⟨.channel, 3⟩,
      .through (.dropHandle ⟨.channel, 2⟩)]).trace =
      [.init 0 (some 0), .sessionInit (some 0) (some 1), .channelOpenSession (some 1) (some 2),
        .channelFree (some 2)] ++ .channelFree (some 2) :: [] := by decide
  exact h _ _ _ (.channel 2) htrace rfl ⟨.channelFree (some 2), by simp, rfl⟩

end CloudSsh.ReleaseDiscipline
