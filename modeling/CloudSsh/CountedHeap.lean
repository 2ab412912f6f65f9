import Mathlib.Data.List.Perm.Basic
import Mathlib.Data.List.Count
import Mathlib.Data.List.Nodup
import Mathlib.Algebra.Order.BigOperators.Group.List
import Mathlib.Algebra.Order.Group.Nat

/-!
# Reference-counted heaps

A heap of cells, each with a stored count of its owners and an object. A layout says
which shared pointers an object holds, in the order in which their destructors run,
and what the destructor's own body does. Dropping a pointer decrements the stored
count; at zero the object's body runs, the cell goes, and the object's pointers are
dropped in turn, before any pointer that was due later. The heap is balanced when
every stored count is the number of pointers there are.
-/
namespace CountedHeap

variable {α ω ε : Type}

structure Cell (α ω : Type) where
  addr : α
  count : ℕ
  obj : ω
  deriving DecidableEq

abbrev Heap (α ω : Type) := List (Cell α ω)

structure Layout (α ω ε : Type) where
  members : ω → List α
  body : ω → List ε

/-- All pointers held by objects. -/
def Layout.refs (L : Layout α ω ε) (h : Heap α ω) : List α := h.flatMap fun c => L.members c.obj

def addrs (h : Heap α ω) : List α := h.map Cell.addr

/-- The objects without their counts. -/
def objects (h : Heap α ω) : List (α × ω) := h.map fun c => (c.addr, c.obj)

theorem mem_objects {h : Heap α ω} {p : α × ω} : p ∈ objects h ↔ ∃ c ∈ h, (c.addr, c.obj) = p :=
  List.mem_map

theorem mem_addrs {h : Heap α ω} {b : α} : b ∈ addrs h ↔ ∃ p ∈ objects h, p.1 = b := by
  simp [addrs, objects]

theorem mem_refs {L : Layout α ω ε} {h : Heap α ω} {b : α} :
    b ∈ L.refs h ↔ ∃ p ∈ objects h, b ∈ L.members p.2 := by
  simp [Layout.refs, objects]

theorem refs_eq (L : Layout α ω ε) (h : Heap α ω) :
    L.refs h = (objects h).flatMap fun p => L.members p.2 := by
  simp [Layout.refs, objects, List.flatMap_map]

theorem objects_nodup (hn : (addrs h).Nodup) : (objects h).Nodup := by
  have haddrs : addrs h = (objects h).map Prod.fst := by simp [addrs, objects]
  rw [haddrs] at hn
  exact hn.of_map

@[simp] theorem objects_cons (c : Cell α ω) (h : Heap α ω) :
    objects (c :: h) = (c.addr, c.obj) :: objects h := rfl

section Operations

variable [DecidableEq α]

def cellAt (h : Heap α ω) (a : α) : Option (Cell α ω) := h.find? fun c => c.addr = a

def modify (a : α) (f : Cell α ω → Cell α ω) (h : Heap α ω) : Heap α ω :=
  h.map fun c => if c.addr = a then f c else c

def retain (a : α) : Heap α ω → Heap α ω := modify a fun c => { c with count := c.count + 1 }

def forget (a : α) : Heap α ω → Heap α ω := modify a fun c => { c with count := c.count - 1 }

def setObj (a : α) (o : ω) : Heap α ω → Heap α ω := modify a fun c => { c with obj := o }

def remove (a : α) (h : Heap α ω) : Heap α ω := h.filter fun c => c.addr ≠ a

/-- What one drop leads to: the heap, the pointers to be dropped next, and what the destructor did,
together with the heap it did it in. -/
structure Dropped (α ω ε : Type) where
  heap : Heap α ω
  members : List α
  calls : List (Heap α ω × ε)

def dropOne (L : Layout α ω ε) (a : α) (h : Heap α ω) : Dropped α ω ε :=
  match cellAt h a with
  | none => ⟨h, [], []⟩
  | some c =>
    if c.count ≤ 1 then ⟨remove a h, L.members c.obj, (L.body c.obj).map (h, ·)⟩
    else ⟨forget a h, [], []⟩

def releaseFor (L : Layout α ω ε) : ℕ → List α → Heap α ω → Heap α ω × List (Heap α ω × ε)
  | 0, _, h => (h, [])
  | _ + 1, [], h => (h, [])
  | n + 1, a :: pending, h =>
    let d := dropOne L a h
    let r := releaseFor L n (d.members ++ pending) d.heap
    (r.1, d.calls ++ r.2)

/-- Drop the pointers in order, each with all that follows from it. No pointer is dropped twice,
so that those there are bound the number of drops. -/
def release (L : Layout α ω ε) (pending : List α) (h : Heap α ω) :
    Heap α ω × List (Heap α ω × ε) :=
  releaseFor L (pending.length + (L.refs h).length) pending h

end Operations

section Release

variable [DecidableEq α] {L : Layout α ω ε}

theorem refs_modify (L : Layout α ω ε) (a : α) {f : Cell α ω → Cell α ω}
    (hf : ∀ c, (f c).obj = c.obj) (h : Heap α ω) : L.refs (modify a f h) = L.refs h := by
  induction h with
  | nil => rfl
  | cons c h ih =>
    simp only [Layout.refs, modify, List.map_cons, List.flatMap_cons] at ih ⊢
    rw [ih]
    split <;> simp [hf]

theorem cellAt_mem {h : Heap α ω} {a : α} {c : Cell α ω} (hc : cellAt h a = some c) :
    c ∈ h ∧ c.addr = a :=
  ⟨List.mem_of_find?_eq_some hc, by simpa using List.find?_some hc⟩

theorem dropOne_dangling {a : α} {h : Heap α ω} (hc : cellAt h a = none) :
    dropOne L a h = ⟨h, [], []⟩ := by
  rw [dropOne, hc]

theorem dropOne_last {a : α} {h : Heap α ω} {c : Cell α ω} (hc : cellAt h a = some c)
    (h1 : c.count ≤ 1) :
    dropOne L a h = ⟨remove a h, L.members c.obj, (L.body c.obj).map (h, ·)⟩ := by
  simp only [dropOne, hc, if_pos h1]

theorem dropOne_shared {a : α} {h : Heap α ω} {c : Cell α ω} (hc : cellAt h a = some c)
    (h1 : ¬ c.count ≤ 1) : dropOne L a h = ⟨forget a h, [], []⟩ := by
  simp only [dropOne, hc, if_neg h1]

theorem refs_remove_length (L : Layout α ω ε) {a : α} {h : Heap α ω} {c : Cell α ω}
    (hc : cellAt h a = some c) :
    (L.members c.obj).length + (L.refs (remove a h)).length ≤ (L.refs h).length := by
  have hle : ∀ h : Heap α ω, (L.refs (remove a h)).length ≤ (L.refs h).length := by
    intro h
    induction h with
    | nil => exact Nat.le_refl _
    | cons d h ih =>
      by_cases hd : d.addr = a <;> simp [Layout.refs, remove, hd] at ih ⊢ <;> omega
  induction h with
  | nil => simp [cellAt] at hc
  | cons d h ih =>
    by_cases hd : d.addr = a
    · obtain rfl : d = c := by simpa [cellAt, hd] using hc
      have := hle h
      simp [Layout.refs, remove, hd] at this ⊢
      omega
    · have := ih (by simpa [cellAt, hd] using hc)
      simp [Layout.refs, remove, hd] at this ⊢
      omega

/-- A drop uses up one pointer; those of a destroyed object only change places. -/
theorem dropOne_length (L : Layout α ω ε) (a : α) (h : Heap α ω) :
    (dropOne L a h).members.length + (L.refs (dropOne L a h).heap).length ≤ (L.refs h).length := by
  cases hc : cellAt h a with
  | none => simp [dropOne_dangling hc]
  | some c =>
    by_cases h1 : c.count ≤ 1
    · rw [dropOne_last hc h1]
      exact refs_remove_length L hc
    · simp [dropOne_shared hc h1, forget, refs_modify]

theorem releaseFor_nil (n : ℕ) (h : Heap α ω) : releaseFor L n [] h = (h, []) := by
  cases n <;> rfl

theorem releaseFor_stable {n k : ℕ} {pending : List α} {h : Heap α ω}
    (hn : pending.length + (L.refs h).length ≤ n) (hk : n ≤ k) :
    releaseFor L k pending h = releaseFor L n pending h := by
  induction n generalizing k pending h with
  | zero =>
    obtain rfl : pending = [] := List.eq_nil_of_length_eq_zero (by omega)
    rw [releaseFor_nil, releaseFor_nil]
  | succ n ih =>
    obtain ⟨k, rfl⟩ : ∃ j, k = j + 1 := ⟨k - 1, by omega⟩
    cases pending with
    | nil => rw [releaseFor_nil, releaseFor_nil]
    | cons a pending =>
      have hd := dropOne_length L a h
      simp only [releaseFor]
      rw [ih (by simp only [List.length_append, List.length_cons] at hn ⊢; omega) (by omega)]

theorem release_nil (h : Heap α ω) : release L [] h = (h, []) := releaseFor_nil _ h

/-- Pointers are dropped one after the other, each before those that were due behind it. -/
theorem release_cons (a : α) (pending : List α) (h : Heap α ω) :
    release L (a :: pending) h =
      ((release L ((dropOne L a h).members ++ pending) (dropOne L a h).heap).1,
        (dropOne L a h).calls ++
          (release L ((dropOne L a h).members ++ pending) (dropOne L a h).heap).2) := by
  have hd := dropOne_length L a h
  have hn : (a :: pending).length + (L.refs h).length = pending.length + (L.refs h).length + 1 := by
    rw [List.length_cons]
    omega
  rw [release, hn]
  simp only [releaseFor, release]
  rw [releaseFor_stable (Nat.le_refl _) (by simp only [List.length_append]; omega)]

/-- What every single drop preserves, a release preserves. -/
theorem release_induction {P : List α → Heap α ω → List (Heap α ω × ε) → Prop}
    (hdrop : ∀ a pending h log, P (a :: pending) h log →
      P ((dropOne L a h).members ++ pending) (dropOne L a h).heap (log ++ (dropOne L a h).calls))
    (pending : List α) (h : Heap α ω) (log : List (Heap α ω × ε)) (hP : P pending h log) :
    P [] (release L pending h).1 (log ++ (release L pending h).2) := by
  induction hn : pending.length + (L.refs h).length using Nat.strongRecOn
    generalizing pending h log with
  | ind n ih =>
    cases pending with
    | nil => simpa [release_nil] using hP
    | cons a pending =>
      have hle := dropOne_length L a h
      rw [release_cons, ← List.append_assoc]
      apply ih _ _ _ _ _ (hdrop a pending h log hP) rfl
      simp only [List.length_append, List.length_cons] at hn ⊢
      omega

end Release

/-! ## Balanced heaps -/

section Balanced

variable [DecidableEq α]

/-- Every stored count is the number of pointers to the cell, those held from outside (`roots`)
and those held by objects, and no pointer dangles. -/
structure Balanced (L : Layout α ω ε) (h : Heap α ω) (roots : List α) : Prop where
  nodup : (addrs h).Nodup
  counted : ∀ c ∈ h, c.count = roots.count c.addr + (L.refs h).count c.addr
  positive : ∀ c ∈ h, 0 < c.count
  closed : ∀ a, a ∈ roots ++ L.refs h → a ∈ addrs h

variable {L : Layout α ω ε} {h : Heap α ω} {roots roots' rest : List α} {a : α} {c : Cell α ω}

theorem Balanced.perm (hb : Balanced L h roots) (hp : roots.Perm roots') :
    Balanced L h roots' where
  nodup := hb.nodup
  counted c hc := by rw [← hp.count_eq]; exact hb.counted c hc
  positive := hb.positive
  closed a ha := hb.closed a (((hp.append_right _).mem_iff).mpr ha)

theorem Balanced.empty : Balanced L ([] : Heap α ω) [] :=
  ⟨by simp [addrs], by simp, by simp, by simp [Layout.refs]⟩

theorem cellAt_eq_some_iff (hn : (addrs h).Nodup) :
    cellAt h a = some c ↔ c ∈ h ∧ c.addr = a := by
  refine ⟨cellAt_mem, ?_⟩
  rintro ⟨hc, rfl⟩
  obtain ⟨before, after, rfl⟩ := List.mem_iff_append.mp hc
  have hb : ∀ d ∈ before, d.addr ≠ c.addr := by
    intro d hd he
    simp only [addrs, List.map_append, List.map_cons, List.nodup_append] at hn
    exact hn.2.2 d.addr (List.mem_map_of_mem hd) c.addr (by simp) he
  simp only [cellAt, List.find?_append]
  rw [List.find?_eq_none.mpr (by simpa using hb)]
  simp

theorem exists_cellAt (ha : a ∈ addrs h) : ∃ c, cellAt h a = some c := by
  obtain ⟨c, hc, rfl⟩ := List.mem_map.mp ha
  cases hf : cellAt h c.addr with
  | some d => exact ⟨d, rfl⟩
  | none => simpa using List.find?_eq_none.mp hf c hc

/-- A pointer held from outside points to a cell. -/
theorem Balanced.live (hb : Balanced L h (a :: rest)) : ∃ c, cellAt h a = some c :=
  exists_cellAt (hb.closed a (by simp))

theorem addrs_modify {f : Cell α ω → Cell α ω} (hf : ∀ c, (f c).addr = c.addr) :
    addrs (modify a f h) = addrs h := by
  simp only [addrs, modify, List.map_map]
  apply List.map_congr_left
  intro c _
  by_cases hc : c.addr = a <;> simp [hc, hf]

@[simp] theorem addrs_retain : addrs (retain a h) = addrs h := addrs_modify fun _ => rfl
@[simp] theorem addrs_forget : addrs (forget a h) = addrs h := addrs_modify fun _ => rfl
@[simp] theorem addrs_setObj (o : ω) : addrs (setObj a o h) = addrs h := addrs_modify fun _ => rfl

@[simp] theorem refs_retain : L.refs (retain a h) = L.refs h := by
  apply refs_modify
  exact fun _ => rfl

@[simp] theorem refs_forget : L.refs (forget a h) = L.refs h := by
  apply refs_modify
  exact fun _ => rfl

theorem modify_of_not_mem {f : Cell α ω → Cell α ω} (ha : a ∉ addrs h) : modify a f h = h := by
  refine (List.map_congr_left fun c hc => ?_).trans (List.map_id h)
  have hne : c.addr ≠ a := fun he => ha (he ▸ List.mem_map_of_mem hc)
  simp [hne]

theorem remove_of_not_mem (ha : a ∉ addrs h) : remove a h = h := by
  refine List.filter_eq_self.mpr fun c hc => ?_
  have hne : c.addr ≠ a := fun he => ha (he ▸ List.mem_map_of_mem hc)
  simp [hne]

/-- The cells of a modified heap. -/
theorem forall_mem_modify {f : Cell α ω → Cell α ω} {P : Cell α ω → Prop} :
    (∀ d ∈ modify a f h, P d) ↔
      (∀ d ∈ h, d.addr = a → P (f d)) ∧ ∀ d ∈ h, d.addr ≠ a → P d := by
  simp only [modify, List.forall_mem_map]
  constructor
  · intro hall
    exact ⟨fun d hd he => by simpa [he] using hall d hd,
      fun d hd he => by simpa [he] using hall d hd⟩
  · rintro ⟨hsame, hother⟩ d hd
    by_cases he : d.addr = a
    · simpa [he] using hsame d hd he
    · simpa [he] using hother d hd he

/-- One more pointer from outside. -/
theorem Balanced.retain (hb : Balanced L h roots) (ha : a ∈ addrs h) :
    Balanced L (retain a h) (a :: roots) where
  nodup := by simpa using hb.nodup
  counted := by
    rw [refs_retain]
    refine forall_mem_modify.mpr ⟨fun d hd he => ?_, fun d hd he => ?_⟩
    · have := hb.counted d hd
      simp only [he, List.count_cons_self] at this ⊢
      omega
    · simpa [List.count_cons_of_ne (Ne.symm he)] using hb.counted d hd
  positive := forall_mem_modify.mpr ⟨fun _ _ _ => Nat.succ_pos _, fun d hd _ => hb.positive d hd⟩
  closed b hm := by
    rw [refs_retain, List.cons_append, List.mem_cons] at hm
    rw [addrs_retain]
    rcases hm with rfl | hm
    · exact ha
    · exact hb.closed b hm

/-- One pointer from outside less, to a cell that has others. -/
theorem Balanced.forget (hb : Balanced L h (a :: rest)) (hc : cellAt h a = some c)
    (h1 : 1 < c.count) : Balanced L (forget a h) rest where
  nodup := by simpa using hb.nodup
  counted := by
    rw [refs_forget]
    refine forall_mem_modify.mpr ⟨fun d hd he => ?_, fun d hd he => ?_⟩
    · have := hb.counted d hd
      simp only [he, List.count_cons_self] at this ⊢
      omega
    · simpa [List.count_cons_of_ne (Ne.symm he)] using hb.counted d hd
  positive := by
    refine forall_mem_modify.mpr ⟨fun d hd he => ?_, fun d hd _ => hb.positive d hd⟩
    obtain rfl : d = c :=
      Option.some.inj (((cellAt_eq_some_iff hb.nodup).mpr ⟨hd, he⟩).symm.trans hc)
    simp only
    omega
  closed b hm := by
    rw [refs_forget] at hm
    rw [addrs_forget]
    exact hb.closed b (by simp only [List.cons_append, List.mem_cons]; exact .inr hm)

/-- With distinct addresses a cell stands at one place. -/
theorem split_at (hn : (addrs h).Nodup) (hc : cellAt h a = some c) :
    ∃ before after, h = before ++ c :: after ∧ a ∉ addrs before ∧ a ∉ addrs after := by
  obtain ⟨hmem, rfl⟩ := cellAt_mem hc
  obtain ⟨before, after, rfl⟩ := List.mem_iff_append.mp hmem
  refine ⟨before, after, rfl, ?_, ?_⟩ <;> intro hm <;>
    simp only [addrs, List.map_append, List.map_cons, List.nodup_append, List.nodup_cons,
      List.mem_cons] at hn hm
  · exact hn.2.2 _ hm _ (.inl rfl) rfl
  · exact hn.2.1.1 hm

/-- The last owner: nothing else points to the cell. -/
theorem Balanced.sole_owner (hb : Balanced L h (a :: rest)) (hc : cellAt h a = some c)
    (h1 : c.count ≤ 1) : a ∉ rest ∧ a ∉ L.refs h := by
  obtain ⟨hmem, rfl⟩ := cellAt_mem hc
  have := hb.counted c hmem
  rw [List.count_cons_self] at this
  exact ⟨List.count_eq_zero.mp (by omega), List.count_eq_zero.mp (by omega)⟩

/-- The last pointer to a cell goes, and the cell with it: the pointers of its object are then held
from outside. -/
theorem Balanced.destroy (hb : Balanced L h (a :: rest)) (hc : cellAt h a = some c)
    (h1 : c.count ≤ 1) : Balanced L (remove a h) (L.members c.obj ++ rest) := by
  obtain ⟨hrest, hrefs⟩ := hb.sole_owner hc h1
  obtain ⟨before, after, rfl, hbef, haft⟩ := split_at hb.nodup hc
  have hca := (cellAt_mem hc).2
  have hrem : remove a (before ++ c :: after) = before ++ after := by
    have h₁ := remove_of_not_mem hbef
    have h₂ := remove_of_not_mem haft
    simp only [remove] at h₁ h₂ ⊢
    simp only [List.filter_append, List.filter_cons, h₁, h₂, hca]
    simp
  have hsub : ∀ d ∈ before ++ after, d ∈ before ++ c :: after ∧ d.addr ≠ a := by
    intro d hd
    refine ⟨by simp only [List.mem_append, List.mem_cons] at hd ⊢; tauto, fun he => ?_⟩
    rcases List.mem_append.mp hd with hd | hd
    · exact hbef (he ▸ List.mem_map_of_mem hd)
    · exact haft (he ▸ List.mem_map_of_mem hd)
  have hperm : (L.refs (before ++ c :: after)).Perm
    (L.members c.obj ++ L.refs (before ++ after)) := by
    simp only [Layout.refs, List.flatMap_append, List.flatMap_cons]
    exact List.perm_append_comm_assoc _ _ _
  rw [hrem]
  refine ⟨?_, fun d hd => ?_, fun d hd => hb.positive d (hsub d hd).1, fun b hm => ?_⟩
  · have hn := hb.nodup
    simp only [addrs, List.map_append, List.map_cons] at hn ⊢
    exact (List.nodup_middle.mp hn).of_cons
  · have hcount := hb.counted d (hsub d hd).1
    rw [List.count_cons_of_ne (Ne.symm (hsub d hd).2), hperm.count_eq, List.count_append] at hcount
    rw [List.count_append]
    omega
  · have hb' : b ∈ rest ++ L.refs (before ++ c :: after) := by
      rw [List.mem_append, hperm.mem_iff]
      simp only [List.mem_append] at hm ⊢
      tauto
    have hne : b ≠ a := by
      rintro rfl
      exact (List.mem_append.mp hb').elim hrest hrefs
    have hin := hb.closed b (by rw [List.cons_append]; exact List.mem_cons_of_mem _ hb')
    simp only [addrs, List.map_append, List.map_cons, List.mem_append, List.mem_cons, hca] at hin ⊢
    tauto

/-- A new cell with one owner, whose object takes over pointers held from outside. -/
theorem Balanced.alloc {o : ω} (hb : Balanced L h (L.members o ++ rest)) (ha : a ∉ addrs h) :
    Balanced L (⟨a, 1, o⟩ :: h) (a :: rest) := by
  have hout : ∀ b, b ∈ L.members o ++ rest ++ L.refs h → b ≠ a := by
    rintro b hm rfl
    exact ha (hb.closed b hm)
  have hrefs : L.refs (⟨a, 1, o⟩ :: h) = L.members o ++ L.refs h := rfl
  refine ⟨List.nodup_cons.mpr ⟨ha, hb.nodup⟩, ?_, ?_, fun b hm => ?_⟩
  · rw [hrefs, List.forall_mem_cons]
    constructor
    · have h₁ : (L.members o).count a = 0 :=
        List.count_eq_zero.mpr fun hm => hout a (by simp [hm]) rfl
      have h₂ : rest.count a = 0 := List.count_eq_zero.mpr fun hm => hout a (by simp [hm]) rfl
      have h₃ : (L.refs h).count a = 0 := List.count_eq_zero.mpr fun hm => hout a (by simp [hm]) rfl
      simp [h₁, h₂, h₃]
    · intro d hd
      have hne : d.addr ≠ a := fun he => ha (he ▸ List.mem_map_of_mem hd)
      have := hb.counted d hd
      rw [List.count_append] at this
      rw [List.count_cons_of_ne (Ne.symm hne), List.count_append]
      omega
  · rw [List.forall_mem_cons]
    exact ⟨Nat.one_pos, hb.positive⟩
  · rw [hrefs] at hm
    simp only [List.cons_append, List.mem_cons, List.mem_append] at hm
    refine List.mem_cons.mpr (hm.imp id fun hm => hb.closed b ?_)
    simp only [List.mem_append]
    tauto

/-- An object gives up some pointers and takes over others. -/
theorem Balanced.setObj {o : ω} {new old : List α} (hb : Balanced L h (new ++ rest))
    (hc : cellAt h a = some c) (hperm : (L.members o ++ old).Perm (L.members c.obj ++ new)) :
    Balanced L (setObj a o h) (old ++ rest) := by
  obtain ⟨before, after, rfl, hbef, haft⟩ := split_at hb.nodup hc
  have hca := (cellAt_mem hc).2
  have hset : CountedHeap.setObj a o (before ++ c :: after) =
      before ++ { c with obj := o } :: after := by
    have h₁ := modify_of_not_mem (f := fun c => { c with obj := o }) hbef
    have h₂ := modify_of_not_mem (f := fun c => { c with obj := o }) haft
    simp only [CountedHeap.setObj, modify] at h₁ h₂ ⊢
    simp only [List.map_append, List.map_cons, h₁, h₂, hca, if_true]
  have hrefs : (old ++ rest ++ L.refs (before ++ { c with obj := o } :: after)).Perm
      (new ++ rest ++ L.refs (before ++ c :: after)) := by
    refine List.perm_iff_count.mpr fun b => ?_
    have := List.perm_iff_count.mp hperm b
    simp only [Layout.refs, List.flatMap_append, List.flatMap_cons, List.count_append] at this ⊢
    omega
  have hcount := fun b => List.perm_iff_count.mp hrefs b
  simp only [List.count_append] at hcount
  have haddr : addrs (before ++ { c with obj := o } :: after) = addrs (before ++ c :: after) := by
    simp [addrs]
  rw [hset]
  refine ⟨by rw [haddr]; exact hb.nodup, fun d hd => ?_, fun d hd => ?_, fun b hm => ?_⟩
  · obtain ⟨e, he, hde, hcnt⟩ : ∃ e ∈ before ++ c :: after, d.addr = e.addr ∧
      d.count = e.count := by
      simp only [List.mem_append, List.mem_cons] at hd
      rcases hd with hd | rfl | hd
      · exact ⟨d, by simp [hd], rfl, rfl⟩
      · exact ⟨c, by simp, rfl, rfl⟩
      · exact ⟨d, by simp [hd], rfl, rfl⟩
    have hce := hb.counted e he
    have := hcount d.addr
    rw [hde] at this ⊢
    rw [hcnt, hce, List.count_append, List.count_append]
    omega
  · simp only [List.mem_append, List.mem_cons] at hd
    rcases hd with hd | rfl | hd
    · exact hb.positive d (by simp [hd])
    · exact hb.positive c (by simp)
    · exact hb.positive d (by simp [hd])
  · rw [haddr]
    exact hb.closed b (hrefs.mem_iff.mp hm)

/-- One drop keeps a heap balanced; what the drop leads to is then due before the rest. -/
theorem Balanced.dropOne (hb : Balanced L h (a :: rest)) :
    Balanced L (dropOne L a h).heap ((dropOne L a h).members ++ rest) := by
  obtain ⟨c, hc⟩ := hb.live
  by_cases h1 : c.count ≤ 1
  · rw [dropOne_last hc h1]
    exact hb.destroy hc h1
  · rw [dropOne_shared hc h1]
    exact hb.forget hc (by omega)

/-- In a finite list nothing climbs for ever. -/
theorem none_of_climbing {β : Type} {l : List β} (rank : β → ℕ) {D : β → Prop}
    (hstep : ∀ c ∈ l, D c → ∃ d ∈ l, D d ∧ rank c < rank d) : ∀ c ∈ l, ¬ D c := by
  have hbound : ∀ c ∈ l, rank c ≤ (l.map rank).sum := fun c hc =>
    List.single_le_sum (fun _ _ => Nat.zero_le _) _ (List.mem_map_of_mem hc)
  have hnone : ∀ n, ∀ c ∈ l, (l.map rank).sum < rank c + n → ¬ D c := by
    intro n
    induction n with
    | zero => exact fun c hc hlt => absurd (hbound c hc) (by omega)
    | succ n ih =>
      intro c hc hlt hD
      obtain ⟨d, hd, hD', hr⟩ := hstep c hc hD
      exact ih d hd (by omega) hD'
  exact fun c hc => hnone ((l.map rank).sum + 1) c hc (by omega)

/-- Who keeps an object alive: a pointer from outside or an object that holds it. -/
theorem Balanced.owner (hb : Balanced L h roots) (hc : c ∈ h) :
    c.addr ∈ roots ∨ ∃ d ∈ h, c.addr ∈ L.members d.obj := by
  have hpos := hb.positive c hc
  rw [hb.counted c hc] at hpos
  by_cases hr : c.addr ∈ roots
  · exact .inl hr
  · rw [List.count_eq_zero.mpr hr, Nat.zero_add, List.count_pos_iff] at hpos
    exact .inr (List.mem_flatMap.mp hpos)

/-- Without cycles nothing outlives its owners: when no pointer is held from outside, nothing is
left. -/
theorem Balanced.eq_nil (hb : Balanced L h []) (rank : α → ℕ)
    (hrank : ∀ c ∈ h, ∀ m ∈ L.members c.obj, rank m < rank c.addr) : h = [] := by
  refine List.eq_nil_iff_forall_not_mem.mpr fun c hc => ?_
  refine none_of_climbing (fun c => rank c.addr) (D := fun _ => True)
    (fun c hc _ => ?_) c hc trivial
  obtain ⟨d, hd, hm⟩ := (hb.owner hc).resolve_left (by simp)
  exact ⟨d, hd, trivial, hrank d hd _ hm⟩

private theorem objects_modify {f : Cell α ω → Cell α ω} (ha : ∀ c, (f c).addr = c.addr)
    (ho : ∀ c, (f c).obj = c.obj) : objects (modify a f h) = objects h := by
  simp only [objects, modify, List.map_map]
  refine List.map_congr_left fun c _ => ?_
  by_cases hc : c.addr = a <;> simp [hc, ha, ho]

@[simp] theorem objects_retain : objects (retain a h) = objects h :=
  objects_modify (fun _ => rfl) fun _ => rfl

@[simp] theorem objects_forget : objects (forget a h) = objects h :=
  objects_modify (fun _ => rfl) fun _ => rfl

theorem mem_objects_of_cellAt (hc : cellAt h a = some c) : (a, c.obj) ∈ objects h := by
  obtain ⟨hmem, rfl⟩ := cellAt_mem hc
  exact mem_objects.mpr ⟨c, hmem, rfl⟩

/-- With distinct addresses there is one object at an address. -/
theorem eq_of_mem_objects (hn : (addrs h).Nodup) (hc : cellAt h a = some c) {p : α × ω}
    (hp : p ∈ objects h) (he : p.1 = a) : p = (a, c.obj) := by
  obtain ⟨d, hd, rfl⟩ := mem_objects.mp hp
  obtain rfl : d = c := Option.some.inj (((cellAt_eq_some_iff hn).mpr ⟨hd, he⟩).symm.trans hc)
  rw [← he]

theorem mem_objects_remove {p : α × ω} :
    p ∈ objects (remove a h) ↔ p ∈ objects h ∧ p.1 ≠ a := by
  simp only [objects, remove, List.mem_map, List.mem_filter, decide_eq_true_eq]
  constructor
  · rintro ⟨c, ⟨hc, hne⟩, rfl⟩
    exact ⟨⟨c, hc, rfl⟩, hne⟩
  · rintro ⟨⟨c, hc, rfl⟩, hne⟩
    exact ⟨c, ⟨hc, hne⟩, rfl⟩

theorem mem_objects_setObj {o : ω} {p : α × ω} :
    p ∈ objects (setObj a o h) ↔ (p = (a, o) ∧ a ∈ addrs h) ∨ p ∈ objects h ∧ p.1 ≠ a := by
  simp only [objects, setObj, modify, List.mem_map, addrs]
  constructor
  · rintro ⟨d, ⟨c, hc, rfl⟩, rfl⟩
    by_cases he : c.addr = a
    · exact .inl ⟨by simp [he], c, hc, he⟩
    · exact .inr ⟨⟨c, hc, by simp [he]⟩, by simp [he]⟩
  · rintro (⟨rfl, c, hc, rfl⟩ | ⟨⟨c, hc, rfl⟩, hne⟩)
    · exact ⟨_, ⟨c, hc, rfl⟩, by simp⟩
    · exact ⟨_, ⟨c, hc, rfl⟩, by simp [show c.addr ≠ a from hne]⟩

theorem setObj_self (hn : (addrs h).Nodup) (hc : cellAt h a = some c) : setObj a c.obj h = h := by
  refine (List.map_congr_left fun d hd => ?_).trans (List.map_id h)
  by_cases he : d.addr = a
  · obtain rfl : d = c := Option.some.inj (((cellAt_eq_some_iff hn).mpr ⟨hd, he⟩).symm.trans hc)
    rw [if_pos he, id]
  · rw [if_neg he, id]

theorem mem_objects_dropOne {b : α} {p : α × ω}
    (hp : p ∈ objects (CountedHeap.dropOne L b h).heap) :
    p ∈ objects h := by
  cases hc : cellAt h b with
  | none => simpa [dropOne_dangling hc] using hp
  | some c =>
    by_cases h1 : c.count ≤ 1
    · rw [dropOne_last hc h1] at hp
      exact (mem_objects_remove.mp hp).1
    · simpa [dropOne_shared hc h1] using hp

theorem mem_objects_release {pending : List α} {p : α × ω}
    (hp : p ∈ objects (release L pending h).1) : p ∈ objects h := by
  refine release_induction (L := L) (P := fun _ h' _ => p ∈ objects h' → p ∈ objects h) ?_
    pending h [] id hp
  exact fun a pending h' log ih hp => ih (mem_objects_dropOne hp)

end Balanced

/-! ## Cell by cell -/

section Cells

variable [DecidableEq α] {h : Heap α ω} {a : α} {c : Cell α ω}

theorem cellAt_cons (c : Cell α ω) (h : Heap α ω) (a : α) :
    cellAt (c :: h) a = if c.addr = a then some c else cellAt h a := by
  by_cases hc : c.addr = a <;> simp [cellAt, hc]

theorem retain_cons (a : α) (c : Cell α ω) (h : Heap α ω) : retain a (c :: h) =
    (if c.addr = a then { c with count := c.count + 1 } else c) :: retain a h := rfl

theorem forget_cons (a : α) (c : Cell α ω) (h : Heap α ω) : forget a (c :: h) =
    (if c.addr = a then { c with count := c.count - 1 } else c) :: forget a h := rfl

theorem setObj_cons (a : α) (o : ω) (c : Cell α ω) (h : Heap α ω) : setObj a o (c :: h) =
    (if c.addr = a then { c with obj := o } else c) :: setObj a o h := rfl

theorem remove_cons (a : α) (c : Cell α ω) (h : Heap α ω) :
    remove a (c :: h) = if c.addr = a then remove a h else c :: remove a h := by
  by_cases hc : c.addr = a <;> simp [remove, hc]

theorem retain_of_not_mem (ha : a ∉ addrs h) : retain a h = h := modify_of_not_mem ha

theorem forget_of_not_mem (ha : a ∉ addrs h) : forget a h = h := modify_of_not_mem ha

theorem setObj_of_not_mem {o : ω} (ha : a ∉ addrs h) : setObj a o h = h := modify_of_not_mem ha

theorem cellAt_retain (hc : cellAt h a = some c) :
    cellAt (retain a h) a = some { c with count := c.count + 1 } := by
  induction h with
  | nil => simp [cellAt] at hc
  | cons d h ih =>
    rw [cellAt_cons] at hc
    rw [retain_cons, cellAt_cons]
    by_cases hd : d.addr = a
    · obtain rfl : d = c := by simpa [hd] using hc
      simp [hd]
    · simp only [hd, if_false] at hc ⊢
      exact ih hc

theorem cellAt_modify_of_ne {f : Cell α ω → Cell α ω} (hf : ∀ c, (f c).addr = c.addr) {b : α}
    (hab : a ≠ b) (h : Heap α ω) : cellAt (modify a f h) b = cellAt h b := by
  induction h with
  | nil => rfl
  | cons d h ih =>
    change cellAt ((if d.addr = a then f d else d) :: modify a f h) b = _
    rw [cellAt_cons, cellAt_cons, ih]
    by_cases hd : d.addr = a
    · simp [hd, hf, hab]
    · simp [hd]

theorem cellAt_retain_of_ne {b : α} (hab : a ≠ b) (h : Heap α ω) :
    cellAt (retain a h) b = cellAt h b := by
  refine cellAt_modify_of_ne (fun _ => ?_) hab h
  rfl

theorem cellAt_forget_of_ne {b : α} (hab : a ≠ b) (h : Heap α ω) :
    cellAt (forget a h) b = cellAt h b := by
  refine cellAt_modify_of_ne (fun _ => ?_) hab h
  rfl

theorem cellAt_setObj_of_ne {b : α} {o : ω} (hab : a ≠ b) (h : Heap α ω) :
    cellAt (setObj a o h) b = cellAt h b := by
  refine cellAt_modify_of_ne (fun _ => ?_) hab h
  rfl

theorem cellAt_setObj {o : ω} (hc : cellAt h a = some c) :
    cellAt (setObj a o h) a = some { c with obj := o } := by
  induction h with
  | nil => simp [cellAt] at hc
  | cons d h ih =>
    rw [cellAt_cons] at hc
    rw [setObj_cons, cellAt_cons]
    by_cases hd : d.addr = a
    · obtain rfl : d = c := by simpa [hd] using hc
      simp [hd]
    · simp only [hd, if_false] at hc ⊢
      exact ih hc

theorem cellAt_remove_of_ne {b : α} (hab : a ≠ b) (h : Heap α ω) :
    cellAt (remove a h) b = cellAt h b := by
  induction h with
  | nil => rfl
  | cons d h ih =>
    rw [remove_cons, cellAt_cons]
    by_cases hd : d.addr = a
    · simp [hd, hab, ih]
    · simp [hd, cellAt_cons, ih]

/-- Counts and objects change independently. -/
theorem setObj_retain (a b : α) (o : ω) (h : Heap α ω) :
    setObj a o (retain b h) = retain b (setObj a o h) := by
  induction h with
  | nil => rfl
  | cons d h ih =>
    rw [retain_cons, setObj_cons, setObj_cons, retain_cons, ih]
    by_cases ha : d.addr = a <;> by_cases hb : d.addr = b <;> simp_all

/-- A pointer that is copied and dropped again. -/
theorem forget_retain (a : α) (h : Heap α ω) : forget a (retain a h) = h := by
  induction h with
  | nil => rfl
  | cons c h ih =>
    obtain ⟨b, n, o⟩ := c
    rw [retain_cons, forget_cons, ih]
    by_cases hb : b = a <;> simp [hb]

end Cells

section Same

variable [DecidableEq α] {L : Layout α ω ε} {h h' : Heap α ω} {roots : List α}

/-- Without cycles the pointers from outside determine a heap, as long as no object is in the
place of another. -/
theorem Balanced.same (hb : Balanced L h roots) (hb' : Balanced L h' roots) (rank : α → ℕ)
    (hrank : ∀ c ∈ h, ∀ m ∈ L.members c.obj, rank m < rank c.addr)
    (hrank' : ∀ c ∈ h', ∀ m ∈ L.members c.obj, rank m < rank c.addr)
    (hold : ∀ p ∈ objects h', p.1 ∈ addrs h → p ∈ objects h) (a : α) :
    cellAt h' a = cellAt h a := by
  -- nothing is new: what keeps it alive would be new as well
  have hsub : ∀ p ∈ objects h', p ∈ objects h := by
    have hnone := none_of_climbing (l := h') (fun c => rank c.addr)
      (D := fun c => c.addr ∉ addrs h) ?_
    · intro p hp
      obtain ⟨c, hc, rfl⟩ := mem_objects.mp hp
      exact hold _ hp (not_not.mp (hnone c hc))
    · intro c hc hnew
      rcases hb'.owner hc with hr | ⟨d, hd, hm⟩
      · exact absurd (hb.closed _ (List.mem_append_left _ hr)) hnew
      · refine ⟨d, hd, fun ho => hnew (hb.closed _ (List.mem_append_right _ ?_)), hrank' d hd _ hm⟩
        exact mem_refs.mpr ⟨_, hold _ (mem_objects.mpr ⟨d, hd, rfl⟩) ho, hm⟩
  -- nothing is gone: what kept it alive would be gone as well
  have hsup : ∀ p ∈ objects h, p ∈ objects h' := by
    have hnone := none_of_climbing (l := h) (fun c => rank c.addr)
      (D := fun c => c.addr ∉ addrs h') ?_
    · intro p hp
      obtain ⟨c, hc, rfl⟩ := mem_objects.mp hp
      obtain ⟨q, hq, he⟩ := mem_addrs.mp (not_not.mp (hnone c hc))
      have hcell := (cellAt_eq_some_iff hb.nodup).mpr ⟨hc, rfl⟩
      rwa [eq_of_mem_objects hb.nodup hcell (hsub q hq) he] at hq
    · intro c hc hgone
      rcases hb.owner hc with hr | ⟨d, hd, hm⟩
      · exact absurd (hb'.closed _ (List.mem_append_left _ hr)) hgone
      · refine ⟨d, hd, fun hd' => hgone (hb'.closed _ (List.mem_append_right _ ?_)),
          hrank d hd _ hm⟩
        obtain ⟨q, hq, he⟩ := mem_addrs.mp hd'
        have hcell := (cellAt_eq_some_iff hb.nodup).mpr ⟨hd, rfl⟩
        rw [eq_of_mem_objects hb.nodup hcell (hsub q hq) he] at hq
        exact mem_refs.mpr ⟨_, hq, hm⟩
  have hperm : (objects h').Perm (objects h) :=
    (List.perm_ext_iff_of_nodup (objects_nodup hb'.nodup) (objects_nodup hb.nodup)).mpr fun p =>
      ⟨hsub p, hsup p⟩
  have hrefs : (L.refs h').Perm (L.refs h) := by
    rw [refs_eq, refs_eq]
    exact hperm.flatMap_right _
  cases hc : cellAt h a with
  | none =>
    cases hc' : cellAt h' a with
    | none => rfl
    | some c' =>
      obtain ⟨d, hd⟩ := exists_cellAt (mem_addrs.mpr ⟨_, hsub _ (mem_objects_of_cellAt hc'), rfl⟩)
      rw [hc] at hd
      cases hd
  | some c =>
    have hmem := hsup _ (mem_objects_of_cellAt hc)
    obtain ⟨c', hc'⟩ := exists_cellAt (mem_addrs.mpr ⟨_, hmem, rfl⟩)
    obtain ⟨hin, haddr⟩ := cellAt_mem hc
    obtain ⟨hin', haddr'⟩ := cellAt_mem hc'
    have hobj : c.obj = c'.obj := (Prod.mk.inj (eq_of_mem_objects hb'.nodup hc' hmem rfl)).2
    have hcount : c'.count = c.count := by
      rw [hb'.counted c' hin', hb.counted c hin, haddr, haddr', hrefs.count_eq]
    rw [hc']
    cases c
    cases c'
    simp_all

end Same

end CountedHeap
