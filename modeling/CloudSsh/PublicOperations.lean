import CloudSsh.WrapperClasses

/-!
# Runs of public operations

A program holds shared pointers and, once it has copied objects, objects of its own.
An operation on something that the program does not hold does nothing, and neither does
one that needs a shared pointer to an object that has none (`shared_from_this` throws).
An exception is caught by the program, which goes on.
-/
namespace CloudSsh.PublicOperations
open CountedHeap ScopedPrograms LibraryCalls WrapperObjects WrapperClasses

inductive Operation where
  | create (rc : Int)
  | resetPtr
  | socketCreate (hostaddr : Option Bytes) (port : Int16) (net : Network)
      (domain type protocol : Int)
  | socketConnect (socket : ℕ) (hostaddr : Bytes) (port : UInt16) (net : Network)
  | newSession (libssh2 : ℕ) (granted : Bool)
  | handshake (session sock : ℕ) (rc : Int)
  | newChannel (session : ℕ) (granted : Bool)
  | newChannelTcpip (session : ℕ) (host : Bytes) (port : Int) (shost : Bytes) (sport : Int)
      (granted : Bool)
  | newListener (session : ℕ) (port : Int) (granted : Bool)
  | newListenerEx (session : ℕ) (host : Bytes) (port queueMaxsize : Int) (granted : Bool)
  | sessionMethod (m : SessionMethod) (session : ℕ) (ret : Int)
  | getSupportedAuthList (session : ℕ) (username : Bytes) (ret : Option Bytes)
  | isPasswordAuthSupported (session : ℕ) (username : Bytes) (ret : Option Bytes) (onNull : Bool)
  | isPubkeyAuthSupported (session : ℕ) (username : Bytes) (ret : Option Bytes) (onNull : Bool)
  | passwordAuth (session : ℕ) (username password : Bytes) (rc : Int)
  | channelMethod (m : ChannelMethod) (channel : ℕ) (ret : Int)
  | shell (channel : ℕ) (term : Bytes) (pty shell : Int)
  | shellEx (channel : ℕ) (term modes : Bytes)
      (widthChar heightChar widthPx heightPx pty shell : Int)
  | connect (account : Account) (r : Answers)
  | connectToSsh (account : Account) (r : Answers)
  | sshChannel (ssh : ℕ)
  | assignChannel (ssh : ℕ) (channel : Option ℕ)
  | copyHandle (a : Addr)
  | dropHandle (a : Addr)

/-- The static `Libssh2::ptr` is reset or destroyed. -/
def resetPtr : M Unit := do
  match ← view World.ptr with
  | some n =>
    update fun w => { w with ptr := none }
    drop ⟨.libssh2, n⟩
  | none => pure ()

/-- A shared pointer that may be null is copied. -/
def shareAll (as : List Addr) : M Unit := as.forM share

def handlesOf (kind : Kind) (p : M ℕ) : M (List Addr) := do
  return [⟨kind, ← p⟩]

def noHandles (p : M α) : M (List Addr) := do
  let _ ← p
  return []

namespace Operation

/-- What an operation does; it ends with the shared pointers that it hands out. -/
def program : Operation → M (List Addr)
  | create rc => handlesOf .libssh2 (Libssh2.create rc)
  | resetPtr => noHandles PublicOperations.resetPtr
  | socketCreate hostaddr port net domain type protocol =>
    handlesOf .socket (Socket.create hostaddr port net domain type protocol)
  | socketConnect socket hostaddr port net => noHandles (Socket.connect socket hostaddr port net)
  | newSession lib granted => handlesOf .session (Libssh2.newSession lib granted)
  | handshake s sock rc => noHandles (Session.handshake s sock rc)
  | newChannel s granted => handlesOf .channel (Session.newChannel s granted)
  | newChannelTcpip s host port shost sport granted =>
    handlesOf .channel (Session.newChannelTcpip s host port shost sport granted)
  | newListener s port granted => handlesOf .listener (Session.newListener s port granted)
  | newListenerEx s host port queueMaxsize granted =>
    handlesOf .listener (Session.newListenerEx s host port queueMaxsize granted)
  | sessionMethod m s ret => noHandles (Session.method m s ret)
  | getSupportedAuthList s username ret => noHandles (Session.getSupportedAuthList s username ret)
  | isPasswordAuthSupported s username ret onNull =>
    noHandles (Session.isPasswordAuthSupported s username ret onNull)
  | isPubkeyAuthSupported s username ret onNull =>
    noHandles (Session.isPubkeyAuthSupported s username ret onNull)
  | passwordAuth s username password rc => noHandles (Session.passwordAuth s username password rc)
  | channelMethod m c ret => noHandles (Channel.method m c ret)
  | shell c term pty sh => noHandles (Channel.shell c pty sh term)
  | shellEx c term modes widthChar heightChar widthPx heightPx pty sh =>
    noHandles (Channel.shellEx c term modes widthChar heightChar widthPx heightPx pty sh)
  | connect account r => handlesOf .ssh (SSH.construct account r)
  | connectToSsh account r => do
    return ((← WrapperClasses.connectToSsh account r).map (Addr.mk .channel)).toList
  | sshChannel ssh => do
    match ← view (objectAt ⟨.ssh, ssh⟩) with
    | some (.ssh (some c)) =>
      share ⟨.channel, c⟩
      return [⟨.channel, c⟩]
    | _ => return []
  | assignChannel ssh c => do
    shareAll (c.map (Addr.mk .channel)).toList
    noHandles (SSH.assignChannel ssh c)
  | copyHandle a => do
    share a
    return [a]
  | dropHandle a => noHandles (drop a)

/-- The objects that an operation uses through a shared pointer, or through `shared_from_this`. -/
def pointers : Operation → List Addr
  | newSession lib _ => [⟨.libssh2, lib⟩]
  | handshake _ sock _ => [⟨.socket, sock⟩]
  | newChannel s _ | newChannelTcpip s _ _ _ _ _ | newListener s _ _ | newListenerEx s _ _ _ _ =>
    [⟨.session, s⟩]
  | assignChannel _ c => (c.map (Addr.mk .channel)).toList
  | copyHandle a | dropHandle a => [a]
  | _ => []

/-- The objects whose methods an operation calls. -/
def receivers : Operation → List Addr
  | socketConnect socket _ _ _ => [⟨.socket, socket⟩]
  | handshake s _ _ | sessionMethod _ s _ | getSupportedAuthList s _ _
  | isPasswordAuthSupported s _ _ _ | isPubkeyAuthSupported s _ _ _ | passwordAuth s _ _ _ =>
    [⟨.session, s⟩]
  | channelMethod _ c _ | shell c _ _ _ | shellEx c _ _ _ _ _ _ _ _ => [⟨.channel, c⟩]
  | sshChannel ssh | assignChannel ssh _ => [⟨.ssh, ssh⟩]
  | _ => []

/-- The shared pointers that the program gives up with an operation. -/
def spent : Operation → List Addr
  | dropHandle a => [a]
  | _ => []

end Operation

structure State where
  world : World
  handles : List Addr
  automatic : List Addr

namespace State

def initial : State := ⟨⟨⟨[], [], 0, 0⟩, none⟩, [], []⟩

def trace (s : State) : Trace := traceOf s.world.log

def step (s : State) (o : Operation) : State :=
  if (∀ a ∈ o.pointers, a ∈ s.handles) ∧ ∀ a ∈ o.receivers, a ∈ s.handles ++ s.automatic then
    match o.program s.world with
    | (.ok new, w) => ⟨w, new ++ s.handles.diff o.spent, s.automatic⟩
    | (.error _, w) => { s with world := w }
  else s

def run (s : State) (os : List Operation) : State := os.foldl step s

end State

/-! ## What the compiler generates

The classes neither define nor delete copy construction and copy assignment. -/

/-- The copy constructor: every member is copied. -/
def copyObject (a : Addr) : M (Option Addr) := do
  match ← view (objectAt a) with
  | some o =>
    shareAll o.members
    return some ⟨o.kind, ← place o⟩
  | none => return none

/-- The copy assignment, member by member. -/
def assignObject (a b : Addr) : M Unit := do
  match ← view (objectAt a), ← view (objectAt b) with
  | some (.socket _), some (.socket h) => assign a (.socket h) none
  | some (.session _ lib sock), some (.session h lib' sock') =>
    share ⟨.libssh2, lib'⟩
    assign a (.session h lib' sock) (some ⟨.libssh2, lib⟩)
    shareAll (sock'.map (Addr.mk .socket)).toList
    assign a (.session h lib' sock') (sock.map (Addr.mk .socket))
  | some (.channel _ s), some (.channel h s') =>
    share ⟨.session, s'⟩
    assign a (.channel h s') (some ⟨.session, s⟩)
  | some (.listener _ s), some (.listener h s') =>
    share ⟨.session, s'⟩
    assign a (.listener h s') (some ⟨.session, s⟩)
  | some (.ssh c), some (.ssh c') =>
    shareAll (c'.map (Addr.mk .channel)).toList
    assign a (.ssh c') (c.map (Addr.mk .channel))
  | _, _ => pure ()

/-- The operations with those on the objects themselves: an object is copied, to be held by a new
shared pointer or by a variable, it is assigned to, or its variable's scope ends. -/
inductive ObjectOperation where
  | through (o : Operation)
  | copy (a : Addr) (shared : Bool)
  | assign (kind : Kind) (a b : ℕ)
  | leave (a : Addr)

namespace State

def objectStep (s : State) : ObjectOperation → State
  | .through o => s.step o
  | .copy a shared =>
    if a ∈ s.handles ++ s.automatic then
      match copyObject a s.world with
      | (.ok (some b), w) =>
        if shared then ⟨w, b :: s.handles, s.automatic⟩ else ⟨w, s.handles, b :: s.automatic⟩
      | (_, w) => { s with world := w }
    else s
  | .assign kind a b =>
    if ⟨kind, a⟩ ∈ s.handles ++ s.automatic ∧ ⟨kind, b⟩ ∈ s.handles ++ s.automatic then
      { s with world := (assignObject ⟨kind, a⟩ ⟨kind, b⟩ s.world).2 }
    else s
  | .leave a =>
    if a ∈ s.automatic then ⟨(drop a s.world).2, s.handles, s.automatic.erase a⟩ else s

def objectRun (s : State) (os : List ObjectOperation) : State := os.foldl objectStep s

end State

end CloudSsh.PublicOperations
