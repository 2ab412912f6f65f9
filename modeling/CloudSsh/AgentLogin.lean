import CloudSsh.RelayLoop
import CloudSsh.WrapperClasses
import CloudSsh.InterruptedPrograms
import CloudSsh.FirstOccurrences

/-!
# Logging in with the agent

`ssh2_agent.c` tries the identities of the agent one after the other until the server accepts
one, and then opens a shell. Each `goto` is a call of what stands at its label.
-/
namespace CloudSsh.AgentLogin
open EnvironmentPrograms InterruptedPrograms FirstOccurrences
open WrapperClasses (bytes)
open RelayLoop (Byte)

abbrev Addr := ℕ

/-- What `libssh2_agent_get_identity` returns: 0 and an identity, 1 behind the last, or a negative
code. -/
inductive Got (ι : Type) where
  | found (identity : ι)
  | ended
  | failed (code : Int) (neg : code < 0)

structure System (σ ι : Type) where
  init : σ → Int × σ
  socket : σ → Int × σ
  connect : (sock : Int) → (hostaddr : ℕ) → σ → Int × σ
  sessionInit : σ → Option Addr × σ
  handshake : (session : Option Addr) → (sock : Int) → σ → Int × σ
  hostkeyHash : (session : Option Addr) → σ → Option (List.Vector Byte 20) × σ
  userauthList : (session : Option Addr) → (username : List Byte) → σ → Option (List Byte) × σ
  agentInit : (session : Option Addr) → σ → Option Addr × σ
  agentConnect : (agent : Addr) → σ → Int × σ
  agentListIdentities : (agent : Addr) → σ → Int × σ
  agentGetIdentity : (agent : Addr) → (prev : Option ι) → σ → Got ι × σ
  agentUserauth : (agent : Addr) → (username : List Byte) → (identity : ι) → σ → Int × σ
  comment : ι → List Byte
  channelOpenSession : (session : Option Addr) → σ → Option Addr × σ
  channelSetenv : (channel : Addr) → σ → Int × σ
  channelRequestPty : (channel : Addr) → σ → Int × σ
  channelShell : (channel : Addr) → σ → Int × σ

inductive Event (ι : Type) where
  | init (rc : Int)
  | socket (sock : Int)
  | connect (sock : Int) (hostaddr : ℕ) (rc : Int)
  | sessionInit (session : Option Addr)
  | handshake (session : Option Addr) (sock : Int) (rc : Int)
  | hostkeyHash (fingerprint : Option (List.Vector Byte 20))
  | userauthList (userauthlist : Option (List Byte))
  | agentInit (agent : Option Addr)
  | agentConnect (rc : Int)
  | agentListIdentities (rc : Int)
  | agentGetIdentity (prev : Option ι) (got : Got ι)
  | agentUserauth (identity : ι) (rc : Int)
  | channelOpenSession (channel : Option Addr)
  | channelSetenv (rc : Int)
  | channelRequestPty (rc : Int)
  | channelShell (rc : Int)
  | channelFree (channel : Addr)
  | agentDisconnect (agent : Option Addr)
  | agentFree (agent : Option Addr)
  | sessionDisconnect (session : Addr)
  | sessionFree (session : Addr)
  | close (sock : Int)
  | exit
  | stderr (text : List Byte)

/-- A null pointer is followed. -/
inductive Exit where
  | nullPointer

abbrev Login (σ ι α : Type) := Routine σ (Event ι) Exit α

variable {σ ι : Type} (sys : System σ ι) (n : ℕ) (username : List Byte)

def say (text : String) : Login σ ι Unit := note (.stderr (bytes text))

/-! ## The end -/

def endSession : Option Addr → Login σ ι Unit
  | some session => do
    note (.sessionDisconnect session)
    note (.sessionFree session)
  | none => pure ()

def endSocket (sock : Int) : Login σ ι Unit :=
  if sock ≠ -1 then note (.close sock) else pure ()

/-- From the label `shutdown` on. That `libssh2_agent_disconnect` and `libssh2_agent_free` return
when they are given a null pointer is taken for granted. -/
def shutdown (agent session : Option Addr) (sock rc : Int) : Login σ ι Int := do
  note (.agentDisconnect agent)
  note (.agentFree agent)
  endSession session
  endSocket sock
  say "all done!\n"
  note .exit
  pure rc

/-- From the label `skip_shell` on. -/
def skipShell (channel : Addr) (agent session : Option Addr) (sock rc : Int) : Login σ ι Int := do
  note (.channelFree channel)
  shutdown agent session sock rc

/-- From the request of a shell on. -/
def requestShell (agent session : Option Addr) (sock : Int) : Login σ ι Int := do
  let channel ← ask (sys.channelOpenSession session) .channelOpenSession
  match channel with
  | none => do
    say "Unable to open a session\n"
    shutdown agent session sock 0
  | some channel => do
    let _ ← ask (sys.channelSetenv channel) .channelSetenv
    let failed ← ask (sys.channelRequestPty channel) .channelRequestPty
    if failed ≠ 0 then
      say "Failed requesting pty\n"
      skipShell channel agent session sock 0
    else
      let failed ← ask (sys.channelShell channel) .channelShell
      if failed ≠ 0 then
        say "Unable to request shell on allocated pty\n"
        shutdown agent session sock 0
      else
        skipShell channel agent session sock 0

/-! ## The identities -/

/-- How the loop is left: with `rc` 0 or 1, or by a `goto`. -/
inductive Search where
  | accepted
  | exhausted
  | failed

def outcome (identity : ι) (result : String) : List Byte :=
  bytes "\tAuthentication with username " ++ username ++ bytes " and public key " ++
    sys.comment identity ++
    bytes result

/-- A turn of `while (1)`. -/
def tryNext (agent : Addr) (prev_identity : Option ι) : Login σ ι (Option ι ⊕ Search) := do
  let got ← ask (sys.agentGetIdentity agent prev_identity) (.agentGetIdentity prev_identity)
  match got with
  | .ended => pure (.inr .exhausted)
  | .failed _ _ => do
    say "Failure obtaining identity from ssh-agent support\n"
    pure (.inr .failed)
  | .found identity => do
    let rc ← ask (sys.agentUserauth agent username identity) (.agentUserauth identity)
    if rc ≠ 0 then
      note (.stderr (outcome sys username identity " failed!\n"))
      pure (.inl (some identity))
    else
      note (.stderr (outcome sys username identity " succeeded!\n"))
      pure (.inr .accepted)

def search (agent : Addr) : Login σ ι Search := turns (tryNext sys username agent) n none

def behindSearch (agent : Addr) (session : Option Addr) (sock : Int) : Search → Login σ ι Int
  | .accepted => requestShell sys (some agent) session sock
  | .exhausted => do
    say "Couldn't continue authentication\n"
    shutdown (some agent) session sock 1
  | .failed => shutdown (some agent) session sock 1

/-- From `libssh2_agent_init` on. -/
def useAgent (session : Option Addr) (sock : Int) : Login σ ι Int := do
  let agent ← ask (sys.agentInit session) .agentInit
  match agent with
  | none => do
    say "Failure initializing ssh-agent support\n"
    shutdown none session sock 1
  | some agent => do
    let failed ← ask (sys.agentConnect agent) .agentConnect
    if failed ≠ 0 then
      say "Failure connecting to ssh-agent\n"
      shutdown (some agent) session sock 1
    else
      let failed ← ask (sys.agentListIdentities agent) .agentListIdentities
      if failed ≠ 0 then
        say "Failure requesting identities to ssh-agent\n"
        shutdown (some agent) session sock 1
      else
        let result ← search sys n username agent
        behindSearch sys agent session sock result

/-! ## The session -/

def digit (k : Byte) : Byte := if k < 10 then 48 + k else 55 + k

/-- `%02X ` -/
def hex (c : Byte) : List Byte := [digit (c / 16), digit (c % 16), 32]

def showBytes : List Byte → Login σ ι Unit
  | [] => pure ()
  | c :: rest => do
    note (.stderr (hex c))
    showBytes rest

def publickey : List Byte := bytes "publickey"

/-- From the list of the methods on. `rc` still is the 0 of `libssh2_init`. -/
def chooseMethod (session : Option Addr) (sock : Int) : Login σ ι Int := do
  let userauthlist ← ask (sys.userauthList session username) .userauthList
  match userauthlist with
  | none => leave .nullPointer
  | some userauthlist => do
    note (.stderr (bytes "Authentication methods: " ++ userauthlist ++ bytes "\n"))
    if find publickey userauthlist = none then
      say "\"publickey\" authentication is not supported\n"
      shutdown none session sock 0
    else
      useAgent sys n username session sock

/-- From `libssh2_session_init` on. -/
def startSession (sock : Int) : Login σ ι Int := do
  let session ← ask sys.sessionInit .sessionInit
  let failed ← ask (sys.handshake session sock) (.handshake session sock)
  if failed ≠ 0 then
    say "Failure establishing SSH session\n"
    pure 1
  else
    let fingerprint ← ask (sys.hostkeyHash session) .hostkeyHash
    say "Fingerprint: "
    match fingerprint with
    | none => leave .nullPointer
    | some fingerprint => do
      showBytes fingerprint.toList
      say "\n"
      chooseMethod sys n username session sock

def main (hostaddr : ℕ) : Login σ ι Int := do
  let rc ← ask sys.init .init
  if rc ≠ 0 then
    say s!"libssh2 initialization failed ({rc})\n"
    pure 1
  else
    let sock ← ask sys.socket .socket
    if sock = -1 then
      say "failed to create socket!\n"
      shutdown none none (-1) 1
    else
      let failed ← ask (sys.connect sock hostaddr) (.connect sock hostaddr)
      if failed ≠ 0 then
        say "failed to connect!\n"
        shutdown none none sock 0
      else
        startSession sys n username sock

end CloudSsh.AgentLogin
