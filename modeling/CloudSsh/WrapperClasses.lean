import CloudSsh.WrapperObjects
import Mathlib.Data.List.Infix

/-!
# The wrapper classes

The constructors and methods of `Libssh2`, `Socket`, `Session`, `Channel`, `Listener`
and `SSH`, and the older `connect_to_ssh`. What the library and the system answer is
given as arguments. The arguments of `std::string` and `const char*` overloads are the
bytes that the library is told to read.
-/
namespace CloudSsh.WrapperClasses
open CountedHeap ScopedPrograms LibraryCalls WrapperObjects

def bytes (s : String) : Bytes := s.toList.map fun c => UInt8.ofNat c.toNat

namespace Libssh2

/-- `create()`, with the private constructor inlined. -/
def create (rc : Int) : M ℕ := do
  match ← view World.ptr with
  | some n =>
    share ⟨.libssh2, n⟩
    pure n
  | none =>
    match ← acquire (rc = 0) (.init rc) with
    | none => raise (.runtimeError "libssh2 initialization failed.\n")
    | some lib =>
      let n ← place (.libssh2 lib)
      update fun w => { w with ptr := some n }
      share ⟨.libssh2, n⟩
      pure n

/-- The session's constructor does not look at what `libssh2_session_init` answers. -/
def newSession (libssh2 : ℕ) (granted : Bool) : M ℕ :=
  withCopy ⟨.libssh2, libssh2⟩ do
    let lib ← view (handleAt ⟨.libssh2, libssh2⟩)
    let session ← acquire granted (.sessionInit lib)
    share ⟨.libssh2, libssh2⟩
    place (.session session libssh2 none)

end Libssh2

/-- What `socket`, `inet_addr` and `connect` answer. -/
structure Network where
  socket : Bool
  inetAddr : Bytes → UInt32
  connect : Int

def htons (port : UInt16) : UInt16 := port <<< 8 ||| port >>> 8

namespace Socket

def connectOn (sock : Option ℕ) (hostaddr : Bytes) (port : UInt16) (net : Network) : M Unit := do
  issue (.connect sock ⟨2, htons port, net.inetAddr hostaddr⟩ net.connect)
  raiseIf (net.connect ≠ 0) (.runtimeError "Failed to connect.\n")

/-- The constructor behind `create`. Its `throw`s leave before there is an object, so that nothing
closes the descriptor. -/
def create (hostaddr : Option Bytes) (port : Int16) (net : Network) (domain : Int := 2)
    (type : Int := 1) (protocol : Int := 0) : M ℕ := do
  match ← acquire net.socket (.socket domain type protocol) with
  | none => raise (.runtimeError "Socket error.\n")
  | some fd =>
    match hostaddr with
    | some host => connectOn (some fd) host port.toUInt16 net
    | none => pure ()
    place (.socket (some fd))

def connect (socket : ℕ) (hostaddr : Bytes) (port : UInt16) (net : Network) : M Unit := do
  connectOn (← view (handleAt ⟨.socket, socket⟩)) hostaddr port net

end Socket

/-- The constructors of `Channel` and `Listener`: the session is copied into its member first, so
that it is dropped again when the library opens nothing. -/
def openOn (session : ℕ) (granted : Bool) (x : Option ℕ → Option ℕ → Call)
    (object : Option ℕ → Wrapper) (what : String) : M ℕ :=
  withCopy ⟨.session, session⟩ do
    share ⟨.session, session⟩
    let raw ← view (handleAt ⟨.session, session⟩)
    match ← acquire granted (x raw) with
    | none =>
      drop ⟨.session, session⟩
      raise (.runtimeError what)
    | some h => place (object (some h))

/-- The methods of `Session` that make one call and hand its answer on. -/
inductive SessionMethod where
  | fingerprint (hashType : Int := 2)
  | authenticated
  | setBlocking
  | clearBlocking
  | setCallback (cbtype : Int) (callback : ℕ)

def SessionMethod.function : SessionMethod → SessionFunction
  | .fingerprint hashType => .hostkeyHash hashType
  | .authenticated => .userauthAuthenticated
  | .setBlocking => .setBlocking true
  | .clearBlocking => .setBlocking false
  | .setCallback cbtype callback => .callbackSet cbtype callback

def strstr (haystack : Option Bytes) (needle : Bytes) (onNull : Bool) : M Bool := do
  issue (.strstr haystack needle)
  match haystack with
  | some s => pure (decide (needle <:+: s))
  | none => pure onNull

namespace Session

def newChannel (session : ℕ) (granted : Bool) : M ℕ :=
  openOn session granted .channelOpenSession (.channel · session)
    "Unable to open a session from session\n"

def newChannelTcpip (session : ℕ) (host : Bytes) (port : Int) (shost : Bytes) (sport : Int)
    (granted : Bool) : M ℕ :=
  openOn session granted (.channelDirectTcpipEx · host port shost sport) (.channel · session)
    "Unable to open a session from session\n"

def newListener (session : ℕ) (port : Int) (granted : Bool) : M ℕ :=
  openOn session granted (.channelForwardListen · port) (.listener · session)
    "Unable to forward listen\n"

def newListenerEx (session : ℕ) (host : Bytes) (port queueMaxsize : Int) (granted : Bool) : M ℕ :=
  openOn session granted (.channelForwardListenEx · host port queueMaxsize) (.listener · session)
    "Unable to forward listen\n"

def handshake (session sock : ℕ) (rc : Int) : M Bool :=
  withCopy ⟨.socket, sock⟩ do
    match ← view (objectAt ⟨.session, session⟩) with
    | some (.session h lib old) =>
      share ⟨.socket, sock⟩
      assign ⟨.session, session⟩ (.session h lib (some sock)) (old.map (Addr.mk .socket))
      issue (.sessionHandshake h (← view (handleAt ⟨.socket, sock⟩)) rc)
      pure (rc = 0)
    | _ => pure false

def method (m : SessionMethod) (session : ℕ) (ret : Int) : M Int := do
  issue (.session m.function (← view (handleAt ⟨.session, session⟩)) ret)
  pure ret

def getSupportedAuthList (session : ℕ) (username : Bytes) (ret : Option Bytes) :
    M (Option Bytes) := do
  issue (.userauthList (← view (handleAt ⟨.session, session⟩)) username ret)
  pure ret

def isAuthSupported (needle : Bytes) (session : ℕ) (username : Bytes) (ret : Option Bytes)
    (onNull : Bool) : M Bool := do
  strstr (← getSupportedAuthList session username ret) needle onNull

def isPasswordAuthSupported : ℕ → Bytes → Option Bytes → Bool → M Bool :=
  isAuthSupported (bytes "password")

def isPubkeyAuthSupported : ℕ → Bytes → Option Bytes → Bool → M Bool :=
  isAuthSupported (bytes "pubkey")

def passwordAuth (session : ℕ) (username password : Bytes) (rc : Int) : M Bool := do
  issue (.userauthPassword (← view (handleAt ⟨.session, session⟩)) username password rc)
  pure (rc = 0)

end Session

/-- The methods of `Channel` that make one call and hand its answer on. -/
inductive ChannelMethod where
  | setenv (name value : Bytes)
  | setenvString (name value : Bytes)
  | setBlocking
  | clearBlocking
  | write (input : Bytes)
  | writeStream (input : Bytes) (sid : Int)
  | writeChar (c : UInt8)
  | writeCharStream (c : UInt8) (sid : Int)
  | read (size : ℕ)
  | readStream (size : ℕ) (sid : Int)
  | flush
  | flushStream (sid : Int)
  | exec (command : Bytes)
  | subsystem (subsystem : Bytes)
  | processStartup (request message : Bytes)
  | receiveWindowAdjust (adjustment : ℕ) (force : UInt8)
  | isEof
  | sendEof
  | close
  | waitClosed
  | waitEof

def ChannelMethod.function : ChannelMethod → ChannelFunction
  | .setenv name value => .setenv name value
  | .setenvString name value => .setenvEx name value
  | .setBlocking => .setBlocking true
  | .clearBlocking => .setBlocking false
  | .write input => .write input
  | .writeStream input sid => .writeEx sid input
  | .writeChar c => .write [c]
  | .writeCharStream c sid => .writeEx sid [c]
  | .read size => .read size
  | .readStream size sid => .readEx sid size
  | .flush => .flush
  | .flushStream sid => .flushEx sid
  | .exec command => .exec command
  | .subsystem name => .subsystem name
  | .processStartup request message => .processStartup request message
  | .receiveWindowAdjust adjustment force => .receiveWindowAdjust2 adjustment force
  | .isEof => .eof
  | .sendEof => .sendEof
  | .close => .close
  | .waitClosed => .waitClosed
  | .waitEof => .waitEof

namespace Channel

def callOn (f : ChannelFunction) (channel : ℕ) (ret : Int) : M Int := do
  issue (.channel f (← view (handleAt ⟨.channel, channel⟩)) ret)
  pure ret

def method (m : ChannelMethod) : ℕ → Int → M Int := callOn m.function

/-- Both `shell`s: request a terminal, then a shell on it. -/
def shellOn (terminal : ChannelFunction) (channel : ℕ) (pty shell : Int) : M Unit := do
  raiseIf ((← callOn terminal channel pty) ≠ 0) (.runtimeError "Failed requesting pty\n")
  raiseIf ((← callOn .shell channel shell) ≠ 0)
    (.runtimeError "Unable to request shell on allocated pty\n")

def shell (channel : ℕ) (pty shell : Int) (term : Bytes := bytes "xterm") : M Unit :=
  shellOn (.requestPty term) channel pty shell

def shellEx (channel : ℕ) (term modes : Bytes)
    (widthChar heightChar widthPx heightPx pty shell : Int) :
    M Unit :=
  shellOn (.requestPtyEx term modes widthChar heightChar widthPx heightPx) channel pty shell

end Channel

/-- What the library and the system answer to one connection attempt. -/
structure Answers extends Network where
  init : Int
  sessionInit : Bool
  handshake : Int
  authList : Option Bytes
  strstrNull : Bool
  password : Int
  channel : Bool
  pty : Int
  shell : Int

structure Account where
  hostname : Option Bytes
  port : Int16
  username : Bytes
  password : Bytes

namespace SSH

/-- The assignment to the member `channel` of a pointer that the program holds. -/
def assignChannel (ssh : ℕ) (channel : Option ℕ) : M Unit := do
  match ← view (objectAt ⟨.ssh, ssh⟩) with
  | some (.ssh old) => assign ⟨.ssh, ssh⟩ (.ssh channel) (old.map (Addr.mk .channel))
  | _ => pure ()

/-- The constructor, with the object around it: when the body throws, the locals go first and the
member `channel` after them. -/
def construct (account : Account) (r : Answers) : M ℕ := do
  let ssh ← place (.ssh none)
  unwinding (World.onStore (Store.drop ⟨.ssh, ssh⟩)) do
    let libssh2 ← Libssh2.create r.init
    holding ⟨.libssh2, libssh2⟩ do
      let socket ← Socket.create account.hostname account.port r.toNetwork
      holding ⟨.socket, socket⟩ do
        let session ← Libssh2.newSession libssh2 r.sessionInit
        holding ⟨.session, session⟩ do
          raiseIf (!(← Session.handshake session socket r.handshake))
            (.runtimeError "Failed to establish SSH connection.")
          raiseIf (!(← Session.isPasswordAuthSupported session account.username r.authList
            r.strstrNull)) (.runtimeError "Password Authentication not supported.")
          raiseIf (!(← Session.passwordAuth session account.username account.password r.password))
            (.runtimeError "Password Authentication failed.\n")
          let channel ← Session.newChannel session r.channel
          assignChannel ssh (some channel)
          Channel.shell channel r.pty r.shell
          pure ssh

end SSH

/-- `connect_to_ssh`: a channel, or a null pointer, or an exception. -/
def connectToSsh (account : Account) (r : Answers) : M (Option ℕ) := do
  let libssh2 ← Libssh2.create r.init
  holding ⟨.libssh2, libssh2⟩ do
    let socket ← Socket.create account.hostname account.port r.toNetwork
    holding ⟨.socket, socket⟩ do
      let session ← Libssh2.newSession libssh2 r.sessionInit
      holding ⟨.session, session⟩ do
        if !(← Session.handshake session socket r.handshake) then return none
        if !(← Session.isPasswordAuthSupported session account.username r.authList
            r.strstrNull) then return none
        if !(← Session.passwordAuth session account.username account.password r.password) then
          return none
        let channel ← Session.newChannel session r.channel
        unwinding (World.onStore (Store.drop ⟨.channel, channel⟩)) do
          Channel.shell channel r.pty r.shell
          pure (some channel)

end CloudSsh.WrapperClasses
