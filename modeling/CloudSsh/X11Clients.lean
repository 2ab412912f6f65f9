import CloudSsh.RelayLoop
import CloudSsh.WrapperClasses
import CloudSsh.BufferedTransfers
import CloudSsh.LinkedNodes

/-!
# X11 forwarding

The main loop of `x11.c`. During any call of the library the server may open channels for X11
clients. `x11_callback` connects each to the local display and puts it at the end of a linked list;
the main loop serves the clients of the list one after the other and removes those that are gone.
-/
namespace CloudSsh.X11Clients
open EnvironmentPrograms InterruptedPrograms BufferedTransfers LinkedNodes
open WrapperClasses (bytes)
open RelayLoop (Byte ReadResult)

abbrev Channel := ℕ

abbrev Addr := ℕ

/-- `struct chan_X11_list` without its pointer. -/
structure ChanX11 where
  chan : Channel
  sock : Int

structure Memory where
  gp_x11_chan : Option Addr
  node : Nodes Addr ChanX11

/-- What the program allocates besides nodes. -/
inductive Block where
  | tempBuff (size : ℕ)
  | buf (size : ℕ)
  | fds
  deriving DecidableEq

structure System (σ : Type) where
  /-- The channels that the server opens during a call. -/
  incoming : σ → List Channel × σ
  poll : Channel → σ → Int × σ
  channelRead : Channel → (len : ℕ) → σ → ReadResult len × σ
  channelWrite : Channel → (buf : List Byte) → σ → Accepted buf.length × σ
  requestPtySize : (cols rows : ℕ) → σ → Int × σ
  channelEof : Channel → σ → Int × σ
  getenv : σ → Option (List Byte) × σ
  /-- Whether there is a block, and the bytes that stand behind it. -/
  alloc : Block → σ → Option (List Byte) × σ
  newNode : (node : Nodes Addr ChanX11) → σ → Option {a : Addr // node a = none} × σ
  socket : σ → Int × σ
  connect : (sock : Int) → (path : String) → σ → Int × σ
  write : (sock : Int) → (buf : List Byte) → (count : ℕ) → σ → Int × σ
  select : (fd : Int) → σ → Int × σ
  read : (fd : Int) → (len : ℕ) → σ → ReadResult len × σ
  /-- `ws_row` and `ws_col` behind the `ioctl`. -/
  winsize : σ → (ℕ × ℕ) × σ

inductive Event where
  | incoming (channels : List Channel)
  | poll (channel : Channel) (rc : Int)
  | channelRead (channel : Channel) (size : ℕ) (rc : Int) (mem : List Byte)
  | channelWrite (channel : Channel) (buf : List Byte) (rc : Int)
  | requestPtySize (cols rows : ℕ) (rc : Int)
  | channelEof (channel : Channel) (ret : Int)
  | getenv (display : Option (List Byte))
  | alloc (b : Block) (done : Bool)
  | release (b : Block)
  | newNode (done : Bool)
  | socket (fd : Int)
  | connect (sock : Int) (path : String) (rc : Int)
  | close (sock : Int)
  | write (sock : Int) (buf : List Byte) (count : ℕ) (rc : Int)
  | select (fd rc : Int)
  | read (fd : Int) (size : ℕ) (rc : Int) (mem : List Byte)
  | winsize (rows cols : ℕ)
  | stdout (text : List Byte)
  | perror (text : String)
  /-- A node at `a` is filled in. -/
  | opened (a : Addr) (x : ChanX11)
  /-- `shutdown` and `close` for the client at `a`. -/
  | closed (a : Addr) (sock : Int)
  /-- `free` in `remove_node`. -/
  | free (p : Option Addr)

/-- What ends the program outright. -/
inductive Exit where
  /-- A pointer is followed that is null or leads to a node that is not there. -/
  | dangling
  /-- A new node is filled in that there was no memory for. -/
  | outOfMemory

abbrev X11 (σ α : Type) := Routine σ Event Exit α

variable {σ : Type} (sys : System σ)

def deref (m : Memory) (p : Option Addr) : X11 σ (ChanX11 × Option Addr) :=
  match p.bind m.node with
  | some c => pure c
  | none => leave .dangling

/-! ## The list -/

def freeNode (m : Memory) : Option Addr → X11 σ Memory
  | none => do
    note (.free none)
    pure m
  | some a => do
    let _ ← deref m (some a)
    note (.free (some a))
    pure { m with node := Function.update m.node a none }

/-- The loop of `remove_node`. `current_node` stays where it is until it is done. -/
def removeBehind (n : ℕ) (m : Memory) (elem : Addr) : X11 σ Memory :=
  turns (fun _ => do
    let current ← deref m m.gp_x11_chan
    match m.gp_x11_chan, current.2 with
    | some a, some next =>
      if next = elem then
        let after ← deref m (some next)
        let m ← freeNode { m with node := Function.update m.node a (some (current.1, after.2)) }
          after.2
        pure (.inr m)
      else
        pure (.inl ())
    | _, _ => pure (.inr m)) n ()

def removeNode (n : ℕ) (m : Memory) (elem : Addr) : X11 σ Memory :=
  if m.gp_x11_chan = some elem then do
    let first ← deref m m.gp_x11_chan
    freeNode { m with gp_x11_chan := first.2 } (some elem)
  else
    removeBehind n m elem

/-- `while (chan_iter->next != NULL) chan_iter = chan_iter->next;` -/
def lastNode (n : ℕ) (m : Memory) (first : Addr) : X11 σ Addr :=
  turns (fun chan_iter => do
    let c ← deref m (some chan_iter)
    match c.2 with
    | some next => pure (.inl next)
    | none => pure (.inr chan_iter)) n first

/-- A new node for `x`, with the null pointer in it. -/
def createNode (m : Memory) (x : ChanX11) : X11 σ (Addr × Memory) := do
  let new ← ask (sys.newNode m.node) fun r => .newNode r.isSome
  match new with
  | none => leave .outOfMemory
  | some a =>
    note (.opened a.1 x)
    pure (a.1, { m with node := Function.update m.node a.1 (some (x, none)) })

def addClient (n : ℕ) (m : Memory) (x : ChanX11) : X11 σ Memory :=
  match m.gp_x11_chan with
  | none => do
    let (a, m) ← createNode sys m x
    pure { m with gp_x11_chan := some a }
  | some first => do
    let chan_iter ← lastNode n m first
    let (a, m) ← createNode sys m x
    let c ← deref m (some chan_iter)
    pure { m with node := Function.update m.node chan_iter (some (c.1, some a)) }

/-! ## The callback -/

def isspace (c : Byte) : Bool := c = 32 ∨ 9 ≤ c ∧ c ≤ 13

def isdigit (c : Byte) : Bool := 48 ≤ c ∧ c ≤ 57

def digits (text : List Byte) : Int :=
  (text.takeWhile isdigit).foldl (fun k c => k * 10 + (c.toNat - 48)) 0

def atoi (text : List Byte) : Int :=
  match text.dropWhile isspace with
  | 45 :: rest => -digits rest
  | 43 :: rest => digits rest
  | rest => digits rest

def colon : Byte := 58

/-- What stands behind the last colon. -/
def behindColon (display : List Byte) : List Byte :=
  (display.reverse.takeWhile (· ≠ colon)).reverse

def displayPath (display_port : Int) : String := s!"/tmp/.X11-unix/X{display_port}"

def connectDisplay (n : ℕ) (m : Memory) (channel : Channel) (display_port : Int) :
    X11 σ Memory := do
  let sock ← ask sys.socket .socket
  if sock < 0 then
    pure m
  else
    let rc ← ask (sys.connect sock (displayPath display_port)) fun rc =>
      .connect sock (displayPath display_port) rc
    if rc ≠ -1 then
      addClient sys n m ⟨channel, sock⟩
    else
      note (.close sock)
      pure m

/-- `text` goes through `temp_buff`, which has no room for a terminator: `atoi` may read on behind
it. -/
def readDisplay (n : ℕ) (m : Memory) (channel : Channel) (text : List Byte) : X11 σ Memory := do
  let room ← ask (sys.alloc (.tempBuff text.length))
    fun r => .alloc (.tempBuff text.length) r.isSome
  match room with
  | none => do
    note (.perror "calloc")
    pure m
  | some beyond => do
    note (.release (.tempBuff text.length))
    connectDisplay sys n m channel (atoi (text ++ beyond))

def x11Callback (n : ℕ) (m : Memory) (channel : Channel) : X11 σ Memory := do
  let display ← ask sys.getenv .getenv
  match display with
  | none => pure m
  | some display =>
    if bytes "unix:" <+: display ∨ display.head? = some colon then
      readDisplay sys n m channel (behindColon display)
    else
      pure m

def callbacks (n : ℕ) : List Channel → Memory → X11 σ Memory
  | [], m => pure m
  | channel :: channels, m => do
    let m ← x11Callback sys n m channel
    callbacks n channels m

/-- A call of the library, with the callbacks that it makes. -/
def library {α : Type} (n : ℕ) (m : Memory) (answer : σ → α × σ) (event : α → Event) :
    X11 σ (α × Memory) := do
  let channels ← ask sys.incoming .incoming
  let m ← callbacks sys n channels m
  let r ← ask answer event
  pure (r, m)

/-! ## Serving one client -/

def alloc (b : Block) : X11 σ Bool := do
  let room ← ask (sys.alloc b) fun r => .alloc b r.isSome
  pure room.isSome

def channelRead (n : ℕ) (m : Memory) (channel : Channel) (len : ℕ) :
    X11 σ (ReadResult len × Memory) :=
  library sys n m (sys.channelRead channel len) fun r => .channelRead channel len r.count r.bytes

def channelWrite (n : ℕ) (m : Memory) (channel : Channel) (buf : List Byte) :
    X11 σ (Accepted buf.length × Memory) :=
  library sys n m (sys.channelWrite channel buf) fun rc => .channelWrite channel buf rc

def bufsize : ℕ := 8192

/-- An `int` as the count of `write`. -/
def sizeT (rc : Int) : ℕ := (rc % 2 ^ 64).toNat

/-- What the channel has for the X server. -/
def pull (n : ℕ) (m : Memory) (channel : Channel) (sock : Int) : X11 σ Memory := do
  let (rc, m) ← library sys n m (sys.poll channel) (.poll channel)
  if rc > 0 then
    let (r, m) ← channelRead sys n m channel bufsize
    let _ ← ask (sys.write sock r.bytes (sizeT r.count))
      fun rc => .write sock r.bytes (sizeT r.count) rc
    pure m
  else
    pure m

/-- What the X server has for the channel. It fails, with `fds` left behind, if the X server is
gone. -/
def push (n : ℕ) (m : Memory) (channel : Channel) (sock : Int) : X11 σ (Bool × Memory) := do
  let rc ← ask (sys.select sock) (.select sock)
  if rc > 0 then
    let r ← ask (sys.read sock bufsize) fun r => .read sock bufsize r.count r.bytes
    if r.count > 0 then
      let (_, m) ← channelWrite sys n m channel r.bytes
      pure (true, m)
    else
      note (.release (.buf bufsize))
      pure (false, m)
  else
    pure (true, m)

def x11SendReceive (n : ℕ) (m : Memory) (x : ChanX11) : X11 σ (Int × Memory) := do
  if !(← alloc sys (.buf bufsize)) then
    pure (0, m)
  else if !(← alloc sys .fds) then
    note (.release (.buf bufsize))
    pure (0, m)
  else
    let m ← pull sys n m x.chan x.sock
    let (there, m) ← push sys n m x.chan x.sock
    if there then
      note (.release .fds)
      note (.release (.buf bufsize))
      let ret ← ask (sys.channelEof x.chan) (.channelEof x.chan)
      pure (if ret = 1 then -1 else 0, m)
    else
      pure (-1, m)

/-! ## The main loop -/

/-- One turn of the loop on the clients. -/
def serve (n : ℕ) (m : Memory) (a : Addr) : X11 σ (Memory × Option Addr) := do
  let current_node ← deref m (some a)
  let (rc, m) ← x11SendReceive sys n m current_node.1
  let current_node ← deref m (some a)
  if rc = -1 then
    note (.closed a current_node.1.sock)
    let m ← removeNode n m a
    pure (m, current_node.2)
  else
    pure (m, current_node.2)

def serveClients (n : ℕ) (m : Memory) : X11 σ Memory :=
  turns (fun ((m, current_node) : Memory × Option Addr) =>
    match current_node with
    | none => pure (.inr m)
    | some a => do
      let next ← serve sys n m a
      pure (.inl next)) n (m, m.gp_x11_chan)

/-- The size of the pointer `buf`, which is taken for that of the buffer. -/
def pointerSize : ℕ := 8

def bufsiz : ℕ := 8193

/-- What the shell has printed goes to the terminal. It yields the start of `buf`. -/
def showRemote (n : ℕ) (m : Memory) (channel : Channel) : X11 σ (List Byte × Memory) := do
  let (rc, m) ← library sys n m (sys.poll channel) (.poll channel)
  if rc > 0 then
    let (r, m) ← channelRead sys n m channel pointerSize
    note (.stdout (r.bytes.takeWhile (· ≠ 0)))
    pure (r.bytes ++ List.replicate (pointerSize - r.bytes.length) 0, m)
  else
    pure (List.replicate pointerSize 0, m)

/-- A byte that was typed goes to the shell, with what stands behind it in `buf`. -/
def sendTyped (n : ℕ) (m : Memory) (channel : Channel) (buf : List Byte) : X11 σ Memory := do
  let rc ← ask (sys.select 0) (.select 0)
  if rc > 0 then
    let r ← ask (sys.read 0 1) fun r => .read 0 1 r.count r.bytes
    if r.count > 0 then
      let (_, m) ← channelWrite sys n m channel (r.bytes ++ buf.drop r.bytes.length)
      pure m
    else
      pure m
  else
    pure m

/-- The variables of the main loop. -/
structure Locals where
  m : Memory
  w_size_bck : ℕ × ℕ

def resize (n : ℕ) (i : Locals) : X11 σ Locals := do
  let w_size ← ask sys.winsize fun w => .winsize w.1 w.2
  if w_size ≠ i.w_size_bck then
    let (_, m) ← library sys n i.m (sys.requestPtySize w_size.2 w_size.1)
      (.requestPtySize w_size.2 w_size.1)
    pure ⟨m, w_size⟩
  else
    pure i

def mainTurn (n : ℕ) (channel : Channel) (i : Locals) : X11 σ (Locals ⊕ Memory) := do
  let i ← resize sys n i
  if !(← alloc sys (.buf bufsiz)) then
    pure (.inr i.m)
  else if !(← alloc sys .fds) then
    note (.release (.buf bufsiz))
    pure (.inr i.m)
  else
    let (buf, m) ← showRemote sys n i.m channel
    let m ← serveClients sys n m
    let m ← sendTyped sys n m channel buf
    note (.release .fds)
    note (.release (.buf bufsiz))
    let ret ← ask (sys.channelEof channel) (.channelEof channel)
    if ret = 1 then pure (.inr m) else pure (.inl ⟨m, i.w_size_bck⟩)

/-- The list is empty. -/
def start : Locals := ⟨⟨none, fun _ => none⟩, (0, 0)⟩

def mainLoop (n : ℕ) (channel : Channel) : X11 σ Memory := turns (mainTurn sys n channel) n start

end CloudSsh.X11Clients
