import CloudSsh.RelayLoop
import CloudSsh.BufferedTransfers

/-!
# The echo test

`ssh2_echo.c` runs `cat` on the server, sends it 1500000 bytes as the channel is ready for them, and
reads what comes back into the buffer that it sends from.
-/
namespace CloudSsh.EchoExchange
open EnvironmentPrograms InterruptedPrograms BufferedTransfers
open RelayLoop (Byte ReadResult libssh2ErrorEagain)

/-- `fds[0].revents` -/
structure Revents where
  pollin : Bool
  pollout : Bool
  closed : Bool

structure System (σ : Type) where
  /-- What `libssh2_poll` returns and reports, if `pollout` says that it is to look for POLLOUT. -/
  poll : (pollout : Bool) → σ → (Int × Revents) × σ
  channelRead : (len : ℕ) → σ → ReadResult len × σ
  channelWrite : (buf : List Byte) → σ → Accepted buf.length × σ
  sendEof : σ → Int × σ
  channelClose : σ → Int × σ
  waitsocket : σ → Int × σ
  exitStatus : σ → Int × σ
  exitSignal : σ → Option String × σ

inductive Event where
  | poll (pollout : Bool) (rc : Int) (revents : Revents)
  | channelRead (size : ℕ) (n : Int) (mem : List Byte)
  | channelWrite (buf : List Byte) (n : Int)
  | sendEof (rc : Int)
  | channelClose (rc : Int)
  | waitsocket (rc : Int)
  | exitStatus (exitcode : Int)
  | exitSignal (signal : Option String)
  | stderr (text : String)

/-- The argument of `exit`. -/
abbrev Echo (σ α : Type) := Routine σ Event Int α

def bufsize : ℕ := 32000

def totsize : ℕ := 1500000

/-- The variables of the loop, and whether `fds[0].events` holds POLLOUT. The `int`s that the
channel may drive up without a bound wrap around; `totwritten` stays below `totsize`. -/
structure State where
  buffer : List Byte
  totwritten : ℕ
  totread : Int32
  partials : Int32
  rereads : Int32
  rewrites : Int32
  pollout : Bool

/-- `'A'` -/
def letterA : Byte := 65

def letters : List Byte := List.replicate bufsize letterA

def start : State := ⟨letters, 0, 0, 0, 0, 0, true⟩

variable {σ : Type} (sys : System σ)

/-- A message, and `exit(1)`. -/
def fail {α : Type} (text : String) : Echo σ α := do
  note (.stderr text)
  leave 1

/-- The buffer with what was read at its start. -/
def overlay (buffer mem : List Byte) : List Byte := mem ++ buffer.drop mem.length

def readPart (i : State) : Echo σ State := do
  let r ← ask (sys.channelRead bufsize) fun r => .channelRead bufsize r.count r.bytes
  if r.count = libssh2ErrorEagain then
    note (.stderr "will read again\n")
    pure { i with rereads := i.rereads + 1 }
  else if r.count < 0 then
    fail "read failed\n"
  else
    note (.stderr s!"read {r.count} bytes ({i.totread + Int32.ofInt r.count} in total)\n")
    pure { i with
      buffer := overlay i.buffer r.bytes
      totread := i.totread + Int32.ofInt r.count }

/-- The count of a write that was accepted, which is partial if it had a whole buffer to write. -/
def written (i : State) (n : ℕ) : Echo σ State := do
  note (.stderr s!"wrote {n} bytes ({i.totwritten + n} in total)")
  if bufsize ≤ totsize - i.totwritten ∧ n ≠ bufsize then
    note (.stderr " PARTIAL")
    note (.stderr "\n")
    pure { i with totwritten := i.totwritten + n, partials := i.partials + 1 }
  else
    note (.stderr "\n")
    pure { i with totwritten := i.totwritten + n }

def writeSome (i : State) : Echo σ State := do
  let n ← ask (sys.channelWrite (i.buffer.take (min (totsize - i.totwritten) bufsize)))
    fun n => .channelWrite (i.buffer.take (min (totsize - i.totwritten) bufsize)) n
  if n.1 = libssh2ErrorEagain then
    note (.stderr "will write again\n")
    pure { i with rewrites := i.rewrites + 1 }
  else if n.1 < 0 then
    fail "write failed\n"
  else
    written i n.1.toNat

/-- All is written: `events` no longer holds POLLOUT once the EOF has been sent. -/
def sendEof (i : State) : Echo σ State := do
  let rc ← ask sys.sendEof .sendEof
  if rc = libssh2ErrorEagain then
    note (.stderr "will send eof again\n")
    pure i
  else if rc < 0 then
    fail "send eof failed\n"
  else
    note (.stderr "sent eof\n")
    pure { i with pollout := false }

def writePart (i : State) : Echo σ State :=
  if i.totwritten < totsize then writeSome sys i else sendEof sys i

/-- One turn of `do .. while (running)`. The loop is left only in a turn with nothing to read or
write. -/
def turn (i : State) : Echo σ (State ⊕ State) := do
  let (rc, revents) ← ask (sys.poll i.pollout) fun r => .poll i.pollout r.1 r.2
  if rc < 1 then
    pure (.inl i)
  else
    let i ← (if revents.pollin then readPart sys i else pure i)
    let i ← (if revents.pollout then writePart sys i else pure i)
    if revents.closed ∧ ¬ revents.pollin ∧ ¬ revents.pollout then pure (.inr i) else pure (.inl i)

def exchange (n : ℕ) : Echo σ State := turns (turn sys) n start

def showSignal : Option String → Echo σ Unit
  | some exitsignal => note (.stderr s!"\nGot signal: {exitsignal}\n")
  | none => pure ()

/-- What is shown and returned behind the loop. -/
def conclude (i : State) (exitcode : Int) (exitsignal : Option String) : Echo σ Int := do
  showSignal exitsignal
  note (.stderr s!"\nrereads: {i.rereads} rewrites: {i.rewrites} totwritten {i.totwritten}\n")
  if Int32.ofNat i.totwritten ≠ i.totread then
    fail s!"\n*** FAIL bytes written: {i.totwritten} bytes read: {i.totread} ***\n"
  else
    pure exitcode

/-- `main`, once the command runs. It yields the exit code. `exitsignal` starts as `none`. -/
def echo (n : ℕ) : Echo σ Int := do
  let i ← exchange sys n
  let rc ← retry (fun rc => rc = libssh2ErrorEagain) sys.channelClose .channelClose sys.waitsocket
    .waitsocket n
  if rc = 0 then
    let exitcode ← ask sys.exitStatus .exitStatus
    let exitsignal ← ask sys.exitSignal .exitSignal
    conclude i exitcode exitsignal
  else
    conclude i 127 (some "none")

/-! ## What was sent, and what came back -/

def sentIn : Event → List Byte
  | .channelWrite buf n => buf.take n.toNat
  | _ => []

def receivedIn : Event → List Byte
  | .channelRead _ _ mem => mem
  | _ => []

/-- The bytes that the channel accepted. -/
def sentOf (l : List Event) : List Byte := l.flatMap sentIn

def receivedOf (l : List Event) : List Byte := l.flatMap receivedIn

@[simp] theorem sentOf_concat (l : List Event) (e : Event) :
    sentOf (l ++ [e]) = sentOf l ++ sentIn e := by
  simp [sentOf]

@[simp] theorem receivedOf_concat (l : List Event) (e : Event) :
    receivedOf (l ++ [e]) = receivedOf l ++ receivedIn e := by simp [receivedOf]

/-- What the buffer holds: the letters, under everything that was read into it, one
over the other. -/
def bufferOf (l : List Event) : List Byte :=
  l.foldl (fun buffer e => overlay buffer (receivedIn e)) letters

@[simp] theorem bufferOf_concat (l : List Event) (e : Event) :
    bufferOf (l ++ [e]) = overlay (bufferOf l) (receivedIn e) := by simp [bufferOf]

theorem overlay_nil (buffer : List Byte) : overlay buffer [] = buffer := rfl

/-- The EOF was sent. -/
def EofSent (l : List Event) : Prop := ∃ rc, 0 ≤ rc ∧ .sendEof rc ∈ l

def polledIn (last : Option (Int × Revents)) : Event → Option (Int × Revents)
  | .poll _ rc revents => some (rc, revents)
  | _ => last

/-- What the last poll returned and reported. -/
def lastPoll (l : List Event) : Option (Int × Revents) := l.foldl polledIn none

@[simp] theorem lastPoll_concat (l : List Event) (e : Event) :
    lastPoll (l ++ [e]) = polledIn (lastPoll l) e := by simp [lastPoll]

/-- The last poll reported that the channel is closed, with nothing to read and no call
for a write. -/
def Over (l : List Event) : Prop :=
  ∃ rc revents, lastPoll l = some (rc, revents) ∧ 1 ≤ rc ∧ revents.closed ∧
    ¬ revents.pollin ∧ ¬ revents.pollout

/-- A write offers the start of the buffer, as much as is missing or all of it. EOF is sent only
when nothing is missing, and POLLOUT is looked for until then. The channel is closed only when it is
all over. -/
structure Orderly (before : List Event) (e : Event) : Prop where
  writes : ∀ buf n, e = .channelWrite buf n → (sentOf before).length < totsize ∧
    buf = (bufferOf before).take (min (totsize - (sentOf before).length) bufsize) ∧
    buf.length = min (totsize - (sentOf before).length) bufsize
  ends : ∀ rc, e = .sendEof rc → (sentOf before).length = totsize
  polls : ∀ pollout rc revents, e = .poll pollout rc revents → (pollout = true ↔ ¬ EofSent before)
  closes : ∀ rc, e = .channelClose rc → Over before

end CloudSsh.EchoExchange
