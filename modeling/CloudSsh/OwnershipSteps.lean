import CloudSsh.OwnershipLedger
import CloudSsh.WrapperObjects

/-!
# What can happen to the wrapper objects

A configuration is a store together with the pointers held from outside and, while the
descriptor of a session is being replaced, that session. A step is one thing that the
language or a call does. Every step keeps the heap sound and the ledger of the handles;
copying an object keeps the heap sound only.
-/
namespace CloudSsh.OwnershipSteps
open CountedHeap ResourceTraces Calls OwnershipLedger LibraryCalls WrapperObjects Relation

def ownership : Ownership Addr Wrapper Resource := ⟨Wrapper.raw, Wrapper.members⟩

structure Config extends Store where
  roots : List Addr
  busy : Option Resource

def Config.trace (c : Config) : Trace := traceOf c.log

def NullSession (tr : Trace) : Prop := ∃ lib, Call.sessionInit lib none ∈ tr

def NullList (tr : Trace) : Prop := ∃ s username, Call.userauthList s username none ∈ tr

/-- A null handle or list is used only after the library has answered with one. -/
def Excused (tr : Trace) (x : Call) : Prop :=
  (none ∈ handles x → NullSession tr) ∧ ∀ needle, x = .strstr none needle → NullList tr

structure Admissible (c : Config) (x : Call) : Prop where
  usable : ∀ r, some r ∈ handles x → Usable ownership (objects c.heap) c.trace r
  excused : Excused c.trace x

inductive Step : Config → Config → Prop
  | perm {c : Config} {roots : List Addr} (h : c.roots.Perm roots) :
    Step c { c with roots := roots }
  | share {c : Config} {a : Addr} (ha : a ∈ addrs c.heap) :
      Step c { c with heap := retain a c.heap, roots := a :: c.roots }
  | call {c : Config} {x : Call} (hb : c.busy = none) (hx : effect x = .plain)
      (hadm : Admissible c x) : Step c { c with toStore := c.toStore.issue x }
  | obtain {c : Config} {x : Call} (hb : c.busy = none)
      (hx : effect x = .acquire (.descriptor c.nextHandle) none) (hadm : Admissible c x) :
      Step c { c with toStore := c.toStore.obtain x }
  -- between the call and the object's completion its members may be copied
  | create {c : Config} {x : Call} {r : Resource} {on : Option Resource} {o : Wrapper} {h : Objects}
      {rest : List Addr} (hb : c.busy = none) (hx : effect x = .acquire r on)
      (hr : r.id = c.nextHandle) (ho : o.raw = some r)
      (hon : ∀ r', on = some r' → ∃ q ∈ objects c.heap, q.1 ∈ o.members ∧ q.2.raw = some r')
      (hadm : Admissible c x) (hh : objects h = objects c.heap)
      (hbal : Balanced layout h (o.members ++ rest)) :
      Step c { c with
        toStore := Store.place o { c.toStore.obtain x with heap := h }
        roots := ⟨o.kind, c.nextObject⟩ :: rest }
  | adopt {c : Config} {o : Wrapper} {rest : List Addr} (hb : c.busy = none)
      (ho : ∀ r, o.raw = some r → Simple Call r ∧ Acquired c.trace r ∧ ¬ Released c.trace r ∧
        ¬ Held ownership (objects c.heap) r)
      (hnull : o.raw = none → o.kind = .ssh ∨ o.kind = .session ∧ NullSession c.trace)
      (hroots : c.roots = o.members ++ rest) :
      Step c { c with toStore := c.toStore.place o, roots := ⟨o.kind, c.nextObject⟩ :: rest }
  | relink {c : Config} {a : Addr} {d : Cell Addr Wrapper} {o : Wrapper} {new old rest : List Addr}
      (hb : c.busy = none) (hd : cellAt c.heap a = some d) (hkind : o.kind = d.obj.kind)
      (hraw : o.raw = d.obj.raw) (hperm : (o.members ++ old).Perm (d.obj.members ++ new))
      (hkeep : ∀ m ∈ d.obj.members, m.kind = .libssh2 ∨ m.kind = .session → m ∈ o.members)
      (hroots : c.roots = new ++ rest) :
      Step c { c with
        toStore := c.toStore.overwrite a o, roots := old ++ rest, busy := d.obj.raw }
  | give {c : Config} {x : Call} {s k : ℕ} {d e : Cell Addr Wrapper} {h fd : Option ℕ} {lib : ℕ}
      {ret : Int} (hd : cellAt c.heap ⟨.session, s⟩ = some d) (ho : d.obj = .session h lib (some k))
      (he : cellAt c.heap ⟨.socket, k⟩ = some e) (ho' : e.obj = .socket fd)
      (hb : c.busy = d.obj.raw) (hx : x = .sessionHandshake h fd ret) (hex : Excused c.trace x) :
      Step c { c with toStore := c.toStore.issue x, busy := none }
  | drop {c : Config} {a : Addr} {rest : List Addr} (hroots : c.roots = a :: rest)
      (hb : c.busy = none ∨ a.kind = .socket) :
      Step c { c with
        heap := (dropOne layout a c.heap).heap
        log := c.log ++ (dropOne layout a c.heap).calls
        roots := (dropOne layout a c.heap).members ++ rest }

/-! ## The heap stays sound -/

/-- The call acquires or releases `r`. -/
def Touches (x : Call) (r : Resource) : Prop :=
  effect x = .release r ∨ ∃ on, effect x = .acquire r on

structure Sound (c : Config) : Prop where
  balanced : Balanced layout c.heap c.roots
  typed : ∀ p ∈ objects c.heap, p.1.kind = p.2.kind
  below : ∀ p ∈ objects c.heap, p.1.id < c.nextObject
  owned : ∀ p ∈ objects c.heap, ∀ r, p.2.raw = some r → r.id < c.nextHandle
  numbered : ∀ x ∈ c.trace, ∀ r, Touches x r → r.id < c.nextHandle
  null : ∀ p ∈ objects c.heap, p.2.raw = none →
    p.2.kind = .ssh ∨ p.2.kind = .session ∧ NullSession c.trace
  calls : ∀ x ∈ c.trace, Excused c.trace x

theorem NullSession.append {tr : Trace} (h : NullSession tr) (tr' : Trace) :
    NullSession (tr ++ tr') := by
  obtain ⟨lib, h⟩ := h
  exact ⟨lib, List.mem_append_left _ h⟩

theorem Excused.append {tr : Trace} {x : Call} (h : Excused tr x) (tr' : Trace) :
    Excused (tr ++ tr') x := by
  refine ⟨fun hx => (h.1 hx).append tr', fun needle hx => ?_⟩
  obtain ⟨s, username, hmem⟩ := h.2 needle hx
  exact ⟨s, username, List.mem_append_left _ hmem⟩

@[simp] theorem traceOf_append (log log' : Log) :
    traceOf (log ++ log') = traceOf log ++ traceOf log' := List.map_append

@[simp] theorem traceOf_singleton (e : Objects × Call) : traceOf [e] = [e.2] := rfl

namespace Sound

variable {c : Config} {x : Call} {o : Wrapper} {a : Addr} {rest : List Addr}

theorem acquired_lt (hs : Sound c) {r : Resource} (h : Acquired c.trace r) :
    r.id < c.nextHandle := by
  obtain ⟨x, hx, on, he⟩ := h
  exact hs.numbered x hx r (.inr ⟨on, he⟩)

theorem released_lt (hs : Sound c) {r : Resource} (h : Released c.trace r) :
    r.id < c.nextHandle := by
  obtain ⟨x, hx, he⟩ := h
  exact hs.numbered x hx r (.inl he)

theorem fresh (hs : Sound c) (k : Kind) : ⟨k, c.nextObject⟩ ∉ addrs c.heap := by
  intro hmem
  obtain ⟨p, hp, he⟩ := mem_addrs.mp hmem
  have := hs.below p hp
  rw [he] at this
  exact Nat.lt_irrefl _ this

private theorem null_append (hs : Sound c) (tr : Trace) :
    ∀ p ∈ objects c.heap, p.2.raw = none → p.2.kind = .ssh ∨
      p.2.kind = .session ∧ NullSession (c.trace ++ tr) :=
  fun p hp hr => (hs.null p hp hr).imp_right fun h => ⟨h.1, h.2.append tr⟩

private theorem calls_append (hs : Sound c) (tr : Trace)
    (htr : ∀ x ∈ tr, Excused (c.trace ++ tr) x) :
    ∀ x ∈ c.trace ++ tr, Excused (c.trace ++ tr) x := by
  intro x hx
  rcases List.mem_append.mp hx with hx | hx
  · exact (hs.calls x hx).append tr
  · exact htr x hx

/-- Counts and pointers from outside may change together. -/
theorem recount (hs : Sound c) {h : Objects} {roots : List Addr} (ho : objects h = objects c.heap)
    (hb : Balanced layout h roots) : Sound { c with heap := h, roots := roots } where
  balanced := hb
  typed p hp := hs.typed p (ho ▸ hp)
  below p hp := hs.below p (ho ▸ hp)
  owned p hp := hs.owned p (ho ▸ hp)
  numbered := hs.numbered
  null p hp := hs.null p (ho ▸ hp)
  calls := hs.calls

theorem issue (hs : Sound c) {n : ℕ} (hx : Excused c.trace x) (hn : c.nextHandle ≤ n)
    (ht : ∀ r, Touches x r → r.id < n) :
    Sound { c with toStore := { c.toStore.issue x with nextHandle := n } } where
  balanced := hs.balanced
  typed := hs.typed
  below := hs.below
  owned p hp r hr := Nat.lt_of_lt_of_le (hs.owned p hp r hr) hn
  numbered := by
    intro y hy r hr
    have hy' : y ∈ c.trace ++ [x] := by simpa [Config.trace, Store.issue] using hy
    rcases List.mem_append.mp hy' with hy | hy
    · exact Nat.lt_of_lt_of_le (hs.numbered y hy r hr) hn
    · exact ht r (List.mem_singleton.mp hy ▸ hr)
  null := by
    have := hs.null_append [x]
    simpa [Config.trace, Store.issue] using this
  calls := by
    have := hs.calls_append [x] (by simpa using hx.append [x])
    simpa [Config.trace, Store.issue] using this

theorem place (hs : Sound c) (hroots : c.roots = o.members ++ rest)
    (howned : ∀ r, o.raw = some r → r.id < c.nextHandle)
    (hnull : o.raw = none → o.kind = .ssh ∨ o.kind = .session ∧ NullSession c.trace) :
    Sound { c with toStore := c.toStore.place o, roots := ⟨o.kind, c.nextObject⟩ :: rest } where
  balanced := Balanced.alloc (hroots ▸ hs.balanced) (hs.fresh o.kind)
  typed := by simpa [Store.place] using hs.typed
  below := by
    have := hs.below
    simp only [Store.place, objects_cons, List.forall_mem_cons]
    exact ⟨Nat.lt_succ_self _, fun p hp => Nat.lt_succ_of_lt (this p hp)⟩
  owned := by
    simp only [Store.place, objects_cons, List.forall_mem_cons]
    exact ⟨howned, hs.owned⟩
  numbered := hs.numbered
  null := by
    simp only [Store.place, objects_cons, List.forall_mem_cons]
    exact ⟨hnull, hs.null⟩
  calls := hs.calls

theorem overwrite (hs : Sound c) {d : Cell Addr Wrapper} {new old : List Addr}
    (hd : cellAt c.heap a = some d) (hkind : o.kind = d.obj.kind)
    (howned : ∀ r, o.raw = some r → r.id < c.nextHandle)
    (hnull : o.raw = none → o.kind = .ssh ∨ o.kind = .session ∧ NullSession c.trace)
    (hperm : (o.members ++ old).Perm (d.obj.members ++ new)) (hroots : c.roots = new ++ rest)
    (busy : Option Resource) :
    Sound { c with toStore := c.toStore.overwrite a o, roots := old ++ rest, busy := busy } where
  balanced := Balanced.setObj (hroots ▸ hs.balanced) hd hperm
  typed := by
    intro p hp
    rcases mem_objects_setObj.mp hp with ⟨rfl, -⟩ | ⟨hp, -⟩
    · exact (hs.typed _ (mem_objects_of_cellAt hd)).trans hkind.symm
    · exact hs.typed p hp
  below := by
    intro p hp
    rcases mem_objects_setObj.mp hp with ⟨rfl, -⟩ | ⟨hp, -⟩
    · exact hs.below (a, d.obj) (mem_objects_of_cellAt hd)
    · exact hs.below p hp
  owned := by
    intro p hp
    rcases mem_objects_setObj.mp hp with ⟨rfl, -⟩ | ⟨hp, -⟩
    · exact howned
    · exact hs.owned p hp
  numbered := hs.numbered
  null := by
    intro p hp
    rcases mem_objects_setObj.mp hp with ⟨rfl, -⟩ | ⟨hp, -⟩
    · exact hnull
    · exact hs.null p hp
  calls := hs.calls

/-- The call of a destructor that ran, if any, is given the handle of an object that there was. -/
theorem dropOne_calls (hs : Sound c) :
    ∀ e ∈ (dropOne layout a c.heap).calls,
      Excused c.trace e.2 ∧ ∀ r, Touches e.2 r → r.id < c.nextHandle := by
  cases hd : cellAt c.heap a with
  | none => simp [dropOne_dangling hd]
  | some d =>
    by_cases h1 : d.count ≤ 1
    · rw [dropOne_last hd h1]
      rcases destructor_cases d.obj with ⟨hnil, -⟩ | ⟨x, hx, hh, heff⟩
      · simp [layout, hnil]
      · simp only [layout, hx, List.map_cons, List.map_nil, List.mem_singleton, forall_eq]
        refine ⟨⟨fun hmem => ?_, fun needle he => ?_⟩, fun r ht => ?_⟩
        · have hraw : d.obj.raw = none := by
            change none ∈ x.handles at hmem
            simpa [hh, eq_comm] using hmem
          refine ((hs.null _ (mem_objects_of_cellAt hd) hraw).resolve_left fun hk => ?_).2
          cases hobj : d.obj <;> simp_all [Wrapper.kind, Wrapper.destructor]
        · rw [he] at hh
          simp [Call.handles] at hh
        · refine hs.owned _ (mem_objects_of_cellAt hd) r ?_
          change x.effect = .release r ∨ ∃ on, x.effect = .acquire r on at ht
          rw [heff] at ht
          cases hraw : d.obj.raw <;> simp_all
    · simp [dropOne_shared hd h1]

theorem drop (hs : Sound c) (hroots : c.roots = a :: rest) :
    Sound { c with
      heap := (dropOne layout a c.heap).heap
      log := c.log ++ (dropOne layout a c.heap).calls
      roots := (dropOne layout a c.heap).members ++ rest } where
  balanced := Balanced.dropOne (hroots ▸ hs.balanced)
  typed p hp := hs.typed p (mem_objects_dropOne hp)
  below p hp := hs.below p (mem_objects_dropOne hp)
  owned p hp := hs.owned p (mem_objects_dropOne hp)
  numbered := by
    intro x hx r hr
    have hx' : x ∈ c.trace ++ traceOf (dropOne layout a c.heap).calls := by
      simpa [Config.trace] using hx
    rcases List.mem_append.mp hx' with hx | hx
    · exact hs.numbered x hx r hr
    · obtain ⟨e, he, rfl⟩ := List.mem_map.mp hx
      exact (hs.dropOne_calls e he).2 r hr
  null := by
    intro p hp
    have := hs.null_append (traceOf (dropOne layout a c.heap).calls) p (mem_objects_dropOne hp)
    simpa [Config.trace] using this
  calls := by
    have := hs.calls_append (traceOf (dropOne layout a c.heap).calls) fun x hx => by
      obtain ⟨e, he, rfl⟩ := List.mem_map.mp hx
      exact (hs.dropOne_calls e he).1.append _
    simpa [Config.trace] using this

end Sound

private theorem touches_of_plain {n : ℕ} {x : Call} (hx : effect x = .plain) :
    ∀ r, Touches x r → r.id < n := by
  intro r h
  simp [Touches, hx] at h

private theorem touches_of_acquire {n : ℕ} {x : Call} {r : Resource} {on : Option Resource}
    (hx : effect x = .acquire r on) (hr : r.id = n) : ∀ r', Touches x r' → r'.id < n + 1 := by
  intro r' h
  obtain rfl : r = r' := by simpa [Touches, hx] using h
  omega

theorem Step.sound {c c' : Config} (h : Step c c') (hs : Sound c) : Sound c' := by
  cases h with
  | perm h => exact { hs with balanced := hs.balanced.perm h }
  | share ha => exact hs.recount objects_retain (hs.balanced.retain ha)
  | call hb hx hadm => exact hs.issue hadm.excused (Nat.le_refl _) (touches_of_plain hx)
  | obtain hb hx hadm => exact hs.issue hadm.excused (Nat.le_succ _) (touches_of_acquire hx rfl)
  | create hb hx hr ho hon hadm hh hbal =>
    have hi := hs.issue hadm.excused (Nat.le_succ _) (touches_of_acquire hx hr)
    refine (hi.recount hh hbal).place rfl (fun r h => ?_) (by simp [ho])
    obtain rfl := Option.some.inj (ho.symm.trans h)
    exact Nat.lt_succ_of_le (Nat.le_of_eq hr)
  | adopt hb ho hnull hroots =>
    exact hs.place hroots (fun r h => hs.acquired_lt (ho r h).2.1) hnull
  | relink hb hd hkind hraw hperm hkeep hroots =>
    have hmem := mem_objects_of_cellAt hd
    refine hs.overwrite hd hkind (fun r hr => hs.owned _ hmem r (hraw ▸ hr)) (fun hr => ?_) hperm
      hroots _
    rw [hkind]
    exact hs.null _ hmem (hraw ▸ hr)
  | @give x s k d e h fd lib ret hd ho he ho' hb hx hex =>
    have := hs.issue (n := c.nextHandle) hex (Nat.le_refl _) (fun r hr => ?_)
    · exact { this with }
    · rw [hx] at hr
      cases h <;> cases fd <;> rcases hr with hr | ⟨on, hr⟩ <;> exact nomatch hr
  | drop hroots hb => exact hs.drop hroots

/-! ## The ledger stays right -/

/-- When a resource is released, there is an object that owns it, and no object holds that one. -/
def Alone (log : Log) : Prop :=
  ∀ e ∈ log, ∀ r, effect e.2 = .release r → Held ownership (objects e.1) r ∧
    ∀ p ∈ objects e.1, p.2.raw = some r → ∀ q ∈ objects e.1, p.1 ∉ q.2.members

structure Exclusive (c : Config) : Prop where
  ledger : Ledger ownership (objects c.heap) c.trace c.busy
  alone : Alone c.log

theorem Alone.concat {log : Log} {h : Objects} {x : Call} (ha : Alone log)
    (hx : ∀ r, effect x ≠ .release r) : Alone (log ++ [(h, x)]) := by
  intro e he r hr
  rcases List.mem_append.mp he with he | he
  · exact ha e he r hr
  · rw [List.mem_singleton.mp he] at hr
    exact absurd hr (hx r)

namespace Exclusive

variable {c : Config} {x : Call} {o : Wrapper} {a : Addr} {rest : List Addr}

/-- Counts and pointers from outside do not matter. -/
theorem recount (he : Exclusive c) {h : Objects} (ho : objects h = objects c.heap)
    (roots : List Addr) : Exclusive { c with heap := h, roots := roots } where
  ledger := by
    change Ledger ownership (objects h) c.trace c.busy
    rw [ho]
    exact he.ledger
  alone := he.alone

theorem call (he : Exclusive c) (hb : c.busy = none) (hx : effect x = .plain)
    (hadm : Admissible c x) : Exclusive { c with toStore := c.toStore.issue x } where
  ledger := by
    have := (hb ▸ he.ledger).plain hx hadm.usable
    simpa [Config.trace, Store.issue, hb] using this
  alone := he.alone.concat (by simp [hx])

theorem obtain (he : Exclusive c) (hb : c.busy = none)
    (hx : effect x = .acquire (.descriptor c.nextHandle) none) (hadm : Admissible c x) :
    Exclusive { c with toStore := c.toStore.obtain x } where
  ledger := by
    have := (hb ▸ he.ledger).obtain hx ⟨_, rfl⟩ hadm.usable
    simpa [Config.trace, Store.obtain, Store.issue, hb] using this
  alone := he.alone.concat (by simp [hx])

theorem create (he : Exclusive c) (hs : Sound c) {r : Resource} {on : Option Resource} {h : Objects}
    (hb : c.busy = none)
    (hx : effect x = .acquire r on) (hr : r.id = c.nextHandle) (ho : o.raw = some r)
    (hon : ∀ r', on = some r' → ∃ q ∈ objects c.heap, q.1 ∈ o.members ∧ q.2.raw = some r')
    (hadm : Admissible c x) (hh : objects h = objects c.heap) (roots : List Addr) :
    Exclusive { c with
      toStore := Store.place o { c.toStore.obtain x with heap := h }, roots := roots } where
  ledger := by
    have hnew : ¬ Acquired c.trace r := fun h => by
      have := hs.acquired_lt h
      omega
    have := (hb ▸ he.ledger).create (a := (⟨o.kind, c.nextObject⟩ : Addr)) hx hnew
      ho hon hadm.usable
    simpa [Config.trace, Store.place, Store.obtain, Store.issue, hb, hh] using this
  alone := he.alone.concat (by simp [hx])

theorem adopt (he : Exclusive c) (hb : c.busy = none)
    (ho : ∀ r, o.raw = some r → Simple Call r ∧ Acquired c.trace r ∧ ¬ Released c.trace r ∧
      ¬ Held ownership (objects c.heap) r) (roots : List Addr) :
    Exclusive { c with toStore := c.toStore.place o, roots := roots } where
  ledger := by
    have := (hb ▸ he.ledger).adopt (a := (⟨o.kind, c.nextObject⟩ : Addr)) ho
    simpa [Config.trace, Store.place, hb] using this
  alone := he.alone

private theorem replaced {d : Cell Addr Wrapper} (hs : Sound c) (hd : cellAt c.heap a = some d) :
    Replaced (objects c.heap) (objects (setObj a o c.heap)) a d.obj o where
  old := mem_objects_of_cellAt hd
  new := mem_objects_setObj.mpr (.inl ⟨rfl, mem_addrs.mpr ⟨_, mem_objects_of_cellAt hd, rfl⟩⟩)
  back p hp := (mem_objects_setObj.mp hp).imp_left And.left
  forth p hp := by
    by_cases hpa : p.1 = a
    · exact .inl (eq_of_mem_objects hs.balanced.nodup hd hp hpa)
    · exact .inr ⟨mem_objects_setObj.mpr (.inr ⟨hp, hpa⟩), hpa⟩

theorem relink (he : Exclusive c) (hs : Sound c) {d : Cell Addr Wrapper} (hb : c.busy = none)
    (hd : cellAt c.heap a = some d) (hraw : o.raw = d.obj.raw)
    (hkeep : ∀ m ∈ d.obj.members, m.kind = .libssh2 ∨ m.kind = .session → m ∈ o.members)
    (roots : List Addr) :
    Exclusive { c with
      toStore := c.toStore.overwrite a o, roots := roots, busy := d.obj.raw } where
  ledger := by
    refine (hb ▸ he.ledger).relink (replaced hs hd) hraw ?_
    intro r r' _ hst q hq hqr hm
    obtain ⟨x, -, hx⟩ := hst
    apply hkeep q.1 hm
    rw [hs.typed q hq]
    rcases acquire_on hx with ⟨lib, rfl⟩ | ⟨s, rfl⟩
    · exact .inl (kind_of_raw_library hqr)
    · exact .inr (kind_of_raw_session hqr)
  alone := he.alone

theorem give (he : Exclusive c) (hs : Sound c) {s k lib : ℕ} {d e : Cell Addr Wrapper}
    {h fd : Option ℕ} {ret : Int} (hd : cellAt c.heap ⟨.session, s⟩ = some d)
    (ho : d.obj = .session h lib (some k)) (hk : cellAt c.heap ⟨.socket, k⟩ = some e)
    (ho' : e.obj = .socket fd) (hb : c.busy = d.obj.raw) (hx : x = .sessionHandshake h fd ret) :
    Exclusive { c with toStore := c.toStore.issue x, busy := none } := by
  have hmem := mem_objects_of_cellAt hd
  have hmem' := mem_objects_of_cellAt hk
  obtain ⟨fd, rfl⟩ : ∃ n, fd = some n := by
    cases fd with
    | some n => exact ⟨n, rfl⟩
    | none => simpa [ho', Wrapper.raw, Wrapper.kind] using hs.null _ hmem'
  have hfd : e.obj.raw = some (.descriptor fd) := by rw [ho']; rfl
  have husable : ∀ r, some r ∈ handles x → Usable ownership (objects c.heap) c.trace r := by
    intro r hr
    have hr' : some r ∈ [h.map Resource.session, some (.descriptor fd)] := by
      rw [hx] at hr
      exact hr
    rcases List.mem_cons.mp hr' with hr' | hr'
    · exact .inl ⟨_, hmem, by rw [ho]; exact hr'.symm⟩
    · exact .inl ⟨_, hmem', by rw [List.mem_singleton.mp hr']; exact hfd⟩
  have hrel : ∀ r, effect x ≠ .release r := by
    rw [hx]
    cases h <;> simp [effect_eq, Call.effect]
  refine ⟨?_, he.alone.concat hrel⟩
  cases h with
  | none =>
    have hbn : c.busy = none := by rw [hb, ho]; rfl
    have := (hbn ▸ he.ledger).plain (x := x) (by rw [hx]; rfl) husable
    simpa [Config.trace, Store.issue] using this
  | some n =>
    have hraw : d.obj.raw = some (.session n) := by rw [ho]; rfl
    have hgive : effect x = .give (.session n) (.descriptor fd) := by rw [hx]; rfl
    have := (hraw ▸ hb ▸ he.ledger).give hgive hmem
      (fun p hp hpa => eq_of_mem_objects hs.balanced.nodup hd hp hpa) hraw
      ⟨_, hmem', by simp [ownership, ho, Wrapper.members], hfd⟩ husable
    simpa [Config.trace, Store.issue] using this

private theorem removed {d : Cell Addr Wrapper} (hs : Sound c) (hroots : c.roots = a :: rest)
    (hd : cellAt c.heap a = some d) (h1 : d.count ≤ 1) :
    Removed ownership (objects c.heap) (objects (remove a c.heap)) a d.obj where
  old := mem_objects_of_cellAt hd
  back p hp := mem_objects_remove.mp hp
  forth p hp := by
    by_cases hpa : p.1 = a
    · exact .inl (eq_of_mem_objects hs.balanced.nodup hd hp hpa)
    · exact .inr (mem_objects_remove.mpr ⟨hp, hpa⟩)
  sole p hp hm := by
    have hb : Balanced layout c.heap (a :: rest) := hroots ▸ hs.balanced
    exact (hb.sole_owner hd h1).2 (mem_refs.mpr ⟨p, hp, hm⟩)

private theorem simple_of_socket {r : Resource} (hk : o.kind = .socket) (hr : o.raw = some r) :
    Simple Call r := by
  cases o <;> simp only [Wrapper.kind, reduceCtorEq] at hk
  obtain ⟨fd, -, rfl⟩ := Option.map_eq_some_iff.mp hr
  exact ⟨fd, rfl⟩

/-- What is left when the last pointer to an object goes. -/
private theorem destroy (he : Exclusive c) (hs : Sound c) {d : Cell Addr Wrapper}
    (hroots : c.roots = a :: rest) (hb : c.busy = none ∨ a.kind = .socket)
    (hd : cellAt c.heap a = some d) (h1 : d.count ≤ 1) (roots : List Addr) :
    Exclusive { c with
      heap := remove a c.heap
      log := c.log ++ d.obj.destructor.map (c.heap, ·)
      roots := roots } := by
  have hrem := removed hs hroots hd h1
  have hkind : a.kind = d.obj.kind := hs.typed _ hrem.old
  rcases destructor_cases d.obj with ⟨hnil, hraw⟩ | ⟨x, hx, hh, heff⟩
  · exact {
      ledger := by simpa [Config.trace, hnil] using he.ledger.remove hrem hraw
      alone := by simpa [hnil] using he.alone }
  cases hraw : d.obj.raw with
  | none =>
    have hbn : c.busy = none := by
      refine hb.resolve_right fun hk => ?_
      rcases hs.null _ hrem.old hraw with h | ⟨h, -⟩ <;> simp [← hkind, hk] at h
    have hplain : effect x = .plain := heff.trans (by rw [hraw])
    have husable : ∀ r, some r ∈ handles x → Usable ownership (objects c.heap) c.trace r := by
      intro r hr
      change some r ∈ x.handles at hr
      simp [hh, hraw] at hr
    have := ((hbn ▸ he.ledger).plain hplain husable).remove hrem hraw
    exact {
      ledger := by simpa [Config.trace, hx, hbn] using this
      alone := by simpa [hx] using he.alone.concat (by simp [hplain]) }
  | some r =>
    have hrel : effect x = .release r := heff.trans (by rw [hraw])
    have := he.ledger.release hrem hraw hrel
      (hb.imp_right fun hk => simple_of_socket (hkind ▸ hk) hraw)
    refine ⟨?_, ?_⟩
    · simpa [Config.trace, hx] using this
    · intro e he' r' hr'
      rw [hx] at he'
      rcases List.mem_append.mp he' with he' | he'
      · exact he.alone e he' r' hr'
      · obtain rfl : e = (c.heap, x) := by simpa using he'
        obtain rfl : r = r' := by simpa [hrel] using hr'
        refine ⟨⟨_, hrem.old, hraw⟩, fun p hp hpr q hq hm => ?_⟩
        rw [he.ledger.unique p hp _ hrem.old r hpr hraw] at hm
        exact hrem.sole q hq hm

theorem drop (he : Exclusive c) (hs : Sound c) (hroots : c.roots = a :: rest)
    (hb : c.busy = none ∨ a.kind = .socket) (roots : List Addr) :
    Exclusive { c with
      heap := (dropOne layout a c.heap).heap
      log := c.log ++ (dropOne layout a c.heap).calls
      roots := roots } := by
  cases hd : cellAt c.heap a with
  | none =>
    rw [dropOne_dangling hd, List.append_nil]
    exact { he with }
  | some d =>
    by_cases h1 : d.count ≤ 1
    · rw [dropOne_last hd h1]
      exact he.destroy hs hroots hb hd h1 roots
    · rw [dropOne_shared hd h1, List.append_nil]
      exact he.recount objects_forget roots

end Exclusive

theorem Step.exclusive {c c' : Config} (h : Step c c') (hs : Sound c) (he : Exclusive c) :
    Exclusive c' := by
  cases h with
  | perm h => exact { he with }
  | share ha => exact he.recount objects_retain _
  | call hb hx hadm => exact he.call hb hx hadm
  | obtain hb hx hadm => exact he.obtain hb hx hadm
  | create hb hx hr ho hon hadm hh hbal => exact he.create hs hb hx hr ho hon hadm hh _
  | adopt hb ho hnull hroots => exact he.adopt hb ho _
  | relink hb hd hkind hraw hperm hkeep hroots => exact he.relink hs hb hd hraw hkeep _
  | give hd ho hk ho' hb hx hex => exact he.give hs hd ho hk ho' hb hx
  | drop hroots hb => exact he.drop hs hroots hb _

/-! ## Copies of objects -/

/-- A step, or an object is copied or overwritten with the handle of another. -/
inductive ObjectStep : Config → Config → Prop
  | step {c c' : Config} (h : Step c c') : ObjectStep c c'
  | copy {c : Config} {a : Addr} {d : Cell Addr Wrapper} {rest : List Addr}
      (hd : cellAt c.heap a = some d) (hroots : c.roots = d.obj.members ++ rest) :
      ObjectStep c { c with
        toStore := c.toStore.place d.obj, roots := ⟨d.obj.kind, c.nextObject⟩ :: rest }
  | overwrite {c : Config} {a b : Addr} {d e : Cell Addr Wrapper} {o : Wrapper}
      {new old rest : List Addr} (hd : cellAt c.heap a = some d) (he : cellAt c.heap b = some e)
      (hkind : o.kind = d.obj.kind) (hkind' : o.kind = e.obj.kind) (hraw : o.raw = e.obj.raw)
      (hperm : (o.members ++ old).Perm (d.obj.members ++ new)) (hroots : c.roots = new ++ rest) :
      ObjectStep c { c with toStore := c.toStore.overwrite a o, roots := old ++ rest }

theorem ObjectStep.sound {c c' : Config} (h : ObjectStep c c') (hs : Sound c) : Sound c' := by
  cases h with
  | step h => exact h.sound hs
  | copy hd hroots =>
    have hmem := mem_objects_of_cellAt hd
    exact hs.place hroots (hs.owned _ hmem) (hs.null _ hmem)
  | overwrite hd he hkind hkind' hraw hperm hroots =>
    have hmem := mem_objects_of_cellAt he
    refine hs.overwrite hd hkind (fun r hr => hs.owned _ hmem r (hraw ▸ hr)) (fun hr => ?_) hperm
      hroots _
    rw [hkind']
    exact hs.null _ hmem (hraw ▸ hr)

abbrev Steps := ReflTransGen Step

abbrev ObjectSteps := ReflTransGen ObjectStep

theorem ObjectSteps.sound {c c' : Config} (h : ObjectSteps c c') (hs : Sound c) : Sound c' := by
  induction h with
  | refl => exact hs
  | tail _ h ih => exact h.sound ih

theorem Steps.objectSteps {c c' : Config} (h : Steps c c') : ObjectSteps c c' :=
  h.lift id fun _ _ => .step

theorem Steps.exclusive {c c' : Config} (h : Steps c c') (hs : Sound c) (he : Exclusive c) :
    Exclusive c' := by
  induction h with
  | refl => exact he
  | tail h' h ih => exact h.exclusive (Steps.objectSteps h' |>.sound hs) ih

end CloudSsh.OwnershipSteps
