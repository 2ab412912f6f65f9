import CloudSsh.ResourceTraces
import Mathlib.Data.Nat.Notation

/-!
# The calls that the wrappers make

The socket and libssh2 calls with their arguments and answers, and what each does to the
resources. Resources are numbered in the order in which they are handed out, so that a
descriptor or an address that the system uses again counts as another resource; the
number behind `init` and `exit` says which initialization an exit matches.
-/
namespace CloudSsh.LibraryCalls
open ResourceTraces

abbrev Bytes := List UInt8

inductive Resource where
  | library (id : ℕ)
  | descriptor (id : ℕ)
  | session (id : ℕ)
  | channel (id : ℕ)
  | listener (id : ℕ)
  deriving DecidableEq

def Resource.id : Resource → ℕ
  | library n | descriptor n | session n | channel n | listener n => n

/-- The fields of `sockaddr_in` in network byte order. -/
structure SockAddrIn where
  family : UInt16
  port : UInt16
  addr : UInt32
  deriving DecidableEq

inductive SessionFunction where
  | hostkeyHash (hashType : Int)
  | userauthAuthenticated
  | setBlocking (blocking : Bool)
  | callbackSet (cbtype : Int) (callback : ℕ)
  deriving DecidableEq

inductive ChannelFunction where
  | setenv (name value : Bytes)
  | setenvEx (name value : Bytes)
  | requestPty (term : Bytes)
  | requestPtyEx (term modes : Bytes) (widthChar heightChar widthPx heightPx : Int)
  | shell
  | setBlocking (blocking : Bool)
  | write (bytes : Bytes)
  | writeEx (sid : Int) (bytes : Bytes)
  | read (size : ℕ)
  | readEx (sid : Int) (size : ℕ)
  | flush
  | flushEx (sid : Int)
  | exec (command : Bytes)
  | subsystem (name : Bytes)
  | processStartup (request message : Bytes)
  | receiveWindowAdjust2 (adjustment : ℕ) (force : UInt8)
  | eof
  | sendEof
  | close
  | waitClosed
  | waitEof
  deriving DecidableEq

/-- A call with its arguments and its answer. A handle is `none` when the pointer is NULL (or the
descriptor -1). -/
inductive Call where
  | init (ret : Int) (lib : Option ℕ)
  | exit (lib : ℕ)
  | socket (domain type protocol : Int) (ret : Option ℕ)
  | connect (sock : Option ℕ) (sin : SockAddrIn) (ret : Int)
  | close (sock : Option ℕ)
  | sessionInit (lib : Option ℕ) (ret : Option ℕ)
  | sessionFree (session : Option ℕ)
  | sessionHandshake (session sock : Option ℕ) (ret : Int)
  | session (f : SessionFunction) (session : Option ℕ) (ret : Int)
  | userauthList (session : Option ℕ) (username : Bytes) (ret : Option Bytes)
  | strstr (haystack : Option Bytes) (needle : Bytes)
  | userauthPassword (session : Option ℕ) (username password : Bytes) (ret : Int)
  | channelOpenSession (session : Option ℕ) (ret : Option ℕ)
  | channelDirectTcpipEx (session : Option ℕ) (host : Bytes) (port : Int) (shost : Bytes)
      (sport : Int) (ret : Option ℕ)
  | channelForwardListen (session : Option ℕ) (port : Int) (ret : Option ℕ)
  | channelForwardListenEx (session : Option ℕ) (host : Bytes) (port queueMaxsize : Int)
      (ret : Option ℕ)
  | channelForwardCancel (listener : Option ℕ)
  | channelFree (channel : Option ℕ)
  | channel (f : ChannelFunction) (channel : Option ℕ) (ret : Int)
  deriving DecidableEq

namespace Call

def effect : Call → Effect Resource
  | .init _ (some lib) => .acquire (.library lib) none
  | .exit lib => .release (.library lib)
  | .socket _ _ _ (some fd) => .acquire (.descriptor fd) none
  | .close (some fd) => .release (.descriptor fd)
  | .sessionInit lib (some s) => .acquire (.session s) (lib.map .library)
  | .sessionFree (some s) => .release (.session s)
  | .sessionHandshake (some s) (some fd) _ => .give (.session s) (.descriptor fd)
  | .channelOpenSession s (some c) | .channelDirectTcpipEx s _ _ _ _ (some c) =>
    .acquire (.channel c) (s.map .session)
  | .channelForwardListen s _ (some l) | .channelForwardListenEx s _ _ _ (some l) =>
    .acquire (.listener l) (s.map .session)
  | .channelForwardCancel (some l) => .release (.listener l)
  | .channelFree (some c) => .release (.channel c)
  | _ => .plain

/-- The handles that a call is given and needs to be valid. -/
def handles : Call → List (Option Resource)
  | .init _ _ | .socket _ _ _ _ | .strstr _ _ => []
  | .exit lib => [some (.library lib)]
  | .sessionInit lib _ => [lib.map .library]
  | .connect fd _ _ | .close fd => [fd.map .descriptor]
  | .sessionHandshake s fd _ => [s.map .session, fd.map .descriptor]
  | .sessionFree s | .session _ s _ | .userauthList s _ _ | .userauthPassword s _ _ _
  | .channelOpenSession s _ | .channelDirectTcpipEx s _ _ _ _ _
  | .channelForwardListen s _ _ | .channelForwardListenEx s _ _ _ _ => [s.map .session]
  | .channelForwardCancel l => [l.map .listener]
  | .channelFree c | .channel _ c _ => [c.map .channel]

end Call

/-- A channel or listener depends on the session it was opened on, a session on the library and on
the descriptor last given to its handshake. A descriptor depends on nothing. -/
instance : Calls Call Resource where
  effect := Call.effect
  handles := Call.handles
  Simple r := ∃ fd, r = .descriptor fd
  handles_release {x r} h := by
    unfold Call.effect at h
    split at h <;> simp_all [Call.handles]
  handles_acquire {x r r'} h := by
    unfold Call.effect at h
    split at h <;> simp only [Effect.acquire.injEq, reduceCtorEq] at h <;>
      simp [Call.handles, h.2]
  handles_give {x r r'} h := by
    unfold Call.effect at h
    split at h <;> simp_all [Call.handles]
  acquire_simple {x r on} h hr := by
    obtain ⟨fd, rfl⟩ := hr
    unfold Call.effect at h
    split at h <;> simp_all
  give_simple {x r r'} h hr := by
    obtain ⟨fd, rfl⟩ := hr
    unfold Call.effect at h
    split at h <;> simp_all

theorem effect_eq (x : Call) : Calls.effect x = x.effect := rfl

abbrev Trace := List Call

/-- Only the library and sessions are stood on. -/
theorem acquire_on {x : Call} {r r' : Resource} (h : Calls.effect x = .acquire r (some r')) :
    (∃ lib, r' = .library lib) ∨ ∃ s, r' = .session s := by
  rw [effect_eq] at h
  unfold Call.effect at h
  split at h <;> simp only [Effect.acquire.injEq, reduceCtorEq, and_false] at h <;>
    obtain ⟨-, h⟩ := h <;> obtain ⟨n, -, rfl⟩ := Option.map_eq_some_iff.mp h
  · exact .inl ⟨n, rfl⟩
  all_goals exact .inr ⟨n, rfl⟩

end CloudSsh.LibraryCalls
