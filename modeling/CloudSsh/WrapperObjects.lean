import CloudSsh.CountedHeap
import CloudSsh.ScopedPrograms
import CloudSsh.LibraryCalls

/-!
# The wrapper objects and what the language does with them

The objects of the wrapper classes live in a reference-counted heap; the class of an
object is part of its address, as the static type of a `std::shared_ptr` is. Members
are listed in the order in which they are destroyed, the last declared first. Every
call is logged with the heap it was made in.
-/
namespace CloudSsh.WrapperObjects
open CountedHeap ScopedPrograms LibraryCalls

inductive Kind | libssh2 | socket | session | channel | listener | ssh deriving DecidableEq

structure Addr where
  kind : Kind
  id : ℕ
  deriving DecidableEq

/-- The handles and the shared pointers that are members of the classes, which is all of their data
but `Socket::sin`, the address that `Socket::connect` fills in for the system. `Libssh2` has no
members; the number says which initialization its constructor made. -/
inductive Wrapper where
  | libssh2 (lib : ℕ)
  | socket (sock : Option ℕ)
  | session (session : Option ℕ) (libssh2 : ℕ) (sock : Option ℕ)
  | channel (channel : Option ℕ) (session : ℕ)
  | listener (listener : Option ℕ) (session : ℕ)
  | ssh (channel : Option ℕ)
  deriving DecidableEq

namespace Wrapper

def kind : Wrapper → Kind
  | .libssh2 _ => .libssh2
  | .socket _ => .socket
  | .session _ _ _ => .session
  | .channel _ _ => .channel
  | .listener _ _ => .listener
  | .ssh _ => .ssh

def handle : Wrapper → Option ℕ
  | .libssh2 lib => some lib
  | .socket h | .session h _ _ | .channel h _ | .listener h _ => h
  | .ssh _ => none

/-- The resource that the object's destructor gives back. -/
def raw : Wrapper → Option Resource
  | .libssh2 lib => some (.library lib)
  | .socket h => h.map .descriptor
  | .session h _ _ => h.map .session
  | .channel h _ => h.map .channel
  | .listener h _ => h.map .listener
  | .ssh _ => none

def members : Wrapper → List Addr
  | .libssh2 _ | .socket _ => []
  | .session _ lib sock => (sock.map (Addr.mk .socket)).toList ++ [⟨.libssh2, lib⟩]
  | .channel _ s | .listener _ s => [⟨.session, s⟩]
  | .ssh c => (c.map (Addr.mk .channel)).toList

def destructor : Wrapper → List Call
  | .libssh2 lib => [.exit lib]
  | .socket h => [.close h]
  | .session h _ _ => [.sessionFree h]
  | .channel h _ => [.channelFree h]
  | .listener h _ => [.channelForwardCancel h]
  | .ssh _ => []

end Wrapper

abbrev Objects := Heap Addr Wrapper

def layout : Layout Addr Wrapper Call := ⟨Wrapper.members, Wrapper.destructor⟩

abbrev Log := List (Objects × Call)

def traceOf (log : Log) : Trace := log.map Prod.snd

/-- The objects, the calls so far and the numbers of the next handle and of the next object. -/
structure Store where
  heap : Objects
  log : Log
  nextHandle : ℕ
  nextObject : ℕ

namespace Store

def issue (x : Call) (s : Store) : Store := { s with log := s.log ++ [(s.heap, x)] }

/-- A call that hands out the next handle. -/
def obtain (x : Call) (s : Store) : Store := { s.issue x with nextHandle := s.nextHandle + 1 }

def share (a : Addr) (s : Store) : Store := { s with heap := retain a s.heap }

/-- The destructor of a shared pointer. -/
def drop (a : Addr) (s : Store) : Store :=
  let r := release layout [a] s.heap
  { s with heap := r.1, log := s.log ++ r.2 }

/-- A new object at the next address, with one owner. -/
def place (o : Wrapper) (s : Store) : Store :=
  { s with heap := ⟨⟨o.kind, s.nextObject⟩, 1, o⟩ :: s.heap, nextObject := s.nextObject + 1 }

def overwrite (a : Addr) (o : Wrapper) (s : Store) : Store := { s with heap := setObj a o s.heap }

end Store

/-- The store and the static `Libssh2::ptr`. -/
structure World extends Store where
  ptr : Option ℕ

def World.onStore (f : Store → Store) (w : World) : World := { w with toStore := f w.toStore }

/-- What is thrown: a pointer to a `std::runtime_error` with its text. -/
inductive Exn where
  | runtimeError (what : String)
  deriving DecidableEq

abbrev M := Scoped World Exn

variable {α : Type}

def objectAt (a : Addr) (w : World) : Option Wrapper := (cellAt w.heap a).map Cell.obj

def handleAt (a : Addr) (w : World) : Option ℕ := (objectAt a w).bind Wrapper.handle

def issue (x : Call) : M Unit := update (World.onStore (Store.issue x))

/-- A call that hands out a handle when the environment grants one, and NULL (or -1) otherwise. -/
def acquire (granted : Bool) (x : Option ℕ → Call) : M (Option ℕ) := fun w =>
  if granted then (.ok (some w.nextHandle), w.onStore (Store.obtain (x (some w.nextHandle))))
  else (.ok none, w.onStore (Store.issue (x none)))

def place (o : Wrapper) : M ℕ := fun w => (.ok w.nextObject, w.onStore (Store.place o))

def share (a : Addr) : M Unit := update (World.onStore (Store.share a))

def drop (a : Addr) : M Unit := update (World.onStore (Store.drop a))

/-- A program that holds a pointer in a local variable: it is dropped when the scope is left,
also by an exception. -/
def holding (a : Addr) (p : M α) : M α := ensuring (World.onStore (Store.drop a)) p

/-- A program that is given a copy of a shared pointer. -/
def withCopy (a : Addr) (p : M α) : M α := do
  share a
  holding a p

/-- A shared pointer member is assigned a pointer that the program holds: the old one is dropped
after the new one is in place. -/
def assign (a : Addr) (o : Wrapper) (old : Option Addr) : M Unit := do
  update (World.onStore (Store.overwrite a o))
  match old with
  | some b => drop b
  | none => pure ()

/-- The resource behind a handle of a class. -/
def Kind.resource : Kind → ℕ → Resource
  | .libssh2 | .ssh => .library
  | .socket => .descriptor
  | .session => .session
  | .channel => .channel
  | .listener => .listener

theorem raw_eq (o : Wrapper) : o.raw = o.handle.map o.kind.resource := by cases o <;> rfl

theorem handleAt_eq {a : Addr} {w : World} {d : Cell Addr Wrapper} (hd : cellAt w.heap a = some d) :
    handleAt a w = d.obj.handle := by
  simp [handleAt, objectAt, hd]

theorem kind_of_raw_library {o : Wrapper} {lib : ℕ} (h : o.raw = some (.library lib)) :
    o.kind = .libssh2 := by
  cases o <;> simp_all [Wrapper.raw, Wrapper.kind]

theorem kind_of_raw_session {o : Wrapper} {s : ℕ} (h : o.raw = some (.session s)) :
    o.kind = .session := by
  cases o <;> simp_all [Wrapper.raw, Wrapper.kind]

/-- The call that a destructor makes, if any, gives the object's own handle back. -/
theorem destructor_cases (o : Wrapper) :
    (o.destructor = [] ∧ o.raw = none) ∨
      ∃ x, o.destructor = [x] ∧ x.handles = [o.raw] ∧
        x.effect = match o.raw with | some r => .release r | none => .plain := by
  cases o with
  | ssh c => exact .inl ⟨rfl, rfl⟩
  | libssh2 lib => exact .inr ⟨_, rfl, rfl, rfl⟩
  | socket h => refine .inr ⟨_, rfl, rfl, ?_⟩; cases h <;> rfl
  | session h lib sock => refine .inr ⟨_, rfl, rfl, ?_⟩; cases h <;> rfl
  | channel h s => refine .inr ⟨_, rfl, rfl, ?_⟩; cases h <;> rfl
  | listener h s => refine .inr ⟨_, rfl, rfl, ?_⟩; cases h <;> rfl

end CloudSsh.WrapperObjects
