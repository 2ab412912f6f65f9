import CloudSsh.WrapperClasses
import CloudSsh.RelayLoop
import CloudSsh.BufferedTransfers
import CloudSsh.ReturningPrograms
import CloudSsh.FirstOccurrences

/-!
# NETCONF messages

`subsystem_netconf.c` reads a message until it sees the closing tag and behind it `]]>]]>`, with
whatever the channel brings at a time. What it returns depends on the bytes alone, not on how they
were cut into pieces.
-/
namespace CloudSsh.NetconfFraming
open EnvironmentPrograms InterruptedPrograms BufferedTransfers ReturningPrograms FirstOccurrences
open WrapperClasses (bytes)
open RelayLoop (Byte ReadResult libssh2ErrorEagain)

structure System (σ : Type) where
  /-- `buf` is what stands at the pointer, `len` the length that is passed. -/
  channelWrite : (buf : List Byte) → (len : ℕ) → σ → Accepted len × σ
  channelRead : (len : ℕ) → σ → ReadResult len × σ

inductive Event where
  | channelWrite (buf : List Byte) (len : ℕ) (i : Int)
  | channelRead (size : ℕ) (len : Int) (mem : List Byte)
  | stderr (text : String)
  /-- `Got %d bytes`, and the text. -/
  | got (len : ℕ) (buf : List Byte)

inductive Exit where
  | shutdown
  /-- `strstr` is given a buffer without a terminator. -/
  | overrun

abbrev Netconf (σ α : Type) := Routine σ Event Exit α

variable {σ : Type} (sys : System σ)

/-- Whether it returns 0. Every turn writes from the start of the buffer. What is returned is cut to
an `int`, and the sum is compared with `len` as signed numbers. -/
def netconfWrite (n : ℕ) (buf : List Byte) (len : UInt64) : Netconf σ Bool :=
  turns (fun wr : Int64 => do
    let rc ← ask (sys.channelWrite buf len.toNat) fun rc => .channelWrite buf len.toNat rc
    let i := Int32.ofInt rc.1
    if i < 0 then
      note (.stderr s!"libssh2_channel_write: {i}\n")
      pure (.inr false)
    else if i > 0 ∧ wr + i.toInt64 < len.toInt64 then
      pure (.inl (wr + i.toInt64))
    else
      pure (.inr true)) n 0

/-- What a string function sees of the bytes. -/
def untilNul (received : List Byte) : List Byte := received.takeWhile (· ≠ 0)

/-- The buffer as a string. Behind what was received it still holds the zeros of `memset`. -/
def cstring (buflen : ℕ) (received : List Byte) : Option (List Byte) :=
  if received.length < buflen ∨ 0 ∈ received then some (untilNul received) else none

def endOfMessage : List Byte := bytes "]]>]]>"

def notFound : Netconf σ (List Byte ⊕ Option (List Byte)) := do
  note (.stderr "netconf_read_until: ]]>]]> not found! read buffer too small?\n")
  pure (.inr none)

/-- `while (!specialsequence && rd < buflen)` where nothing has been found. -/
def readOn (buflen : ℕ) (received : List Byte) : Netconf σ (List Byte ⊕ Option (List Byte)) :=
  if received.length < buflen then pure (.inl received) else notFound

/-- The search behind a read. -/
def search (endtag : List Byte) (buflen : ℕ) (received : List Byte) :
    Netconf σ (List Byte ⊕ Option (List Byte)) :=
  match cstring buflen received with
  | none => leave .overrun
  | some buf =>
    match findAfter endtag endOfMessage buf with
    | some rd => pure (.inr (some (buf.take rd)))
    | none => readOn buflen received

/-- It yields the text that is left in the buffer, or nothing for -1. Its length is an `int` for a
buffer of less than 2 GiB. -/
def netconfReadUntil (endtag : List Byte) (buflen n : ℕ) : Netconf σ (Option (List Byte)) :=
  turns (fun received => do
    let r ← ask (sys.channelRead (buflen - received.length))
      fun r => .channelRead (buflen - received.length) r.count r.bytes
    if r.count = libssh2ErrorEagain then
      readOn buflen received
    else if r.count < 0 then
      note (.stderr s!"libssh2_channel_read: {r.count}\n")
      pure (.inr none)
    else
      search endtag buflen (received ++ r.bytes)) n []

/-! ## The conversation -/

def hello : List Byte := bytes ("<?xml version=\"1.0\" encoding=\"UTF-8\"?>\n" ++ "<hello>" ++
  "<capabilities>" ++ "<capability>urn:ietf:params:xml:ns:netconf:base:1.0</capability>" ++
  "</capabilities>" ++ "</hello>\n" ++ "]]>]]>\n")

def rpc : List Byte := bytes ("<?xml version=\"1.0\" encoding=\"UTF-8\"?>\n" ++
  "<rpc xmlns=\"urn:ietf:params:xml:ns:netconf:base:1.0\">" ++
  "<get-interface-information><terse/></get-interface-information>" ++ "</rpc>\n" ++ "]]>]]>\n")

/-- The length of `buf`. -/
def bufSize : ℕ := 1048576

/-- A message is sent, and the answer to it read and shown. -/
def request (n : ℕ) (sending : String) (text : List Byte) (len : UInt64) (reading : String)
    (endtag : List Byte) : Netconf σ Unit := do
  note (.stderr sending)
  let sent ← netconfWrite sys n text len
  if sent then
    note (.stderr reading)
    let answer ← netconfReadUntil sys endtag bufSize n
    match answer with
    | none => leave .shutdown
    | some buf => note (.got buf.length buf)
  else
    leave .shutdown

/-- `len` behind `%n`, which fills the lower half only. -/
def filled (upper : UInt32) (text : List Byte) : UInt64 :=
  UInt64.ofNat (upper.toNat * 2 ^ 32 + text.length)

/-- `main`, once the subsystem runs. Before the first message the `upper` half of `len` is whatever
was there, and before the second it is that of the length of the answer, zero. -/
def conversation (upper : UInt32) (n : ℕ) : Netconf σ Unit := do
  request sys n "Sending NETCONF client <hello>\n" hello (filled upper hello)
    "Reading NETCONF server <hello>\n" (bytes "</hello>")
  request sys n "Sending NETCONF <rpc>\n" rpc (filled 0 rpc)
    "Reading NETCONF <rpc-reply>\n" (bytes "</rpc-reply>")

/-! ## Messages in a stream -/

/-- The message that some bytes contain: what stands before the first `]]>]]>` behind the closing
tag, as far as the bytes are a string. -/
def message (endtag received : List Byte) : Option (List Byte) :=
  (findAfter endtag endOfMessage (untilNul received)).map fun rd => (untilNul received).take rd

variable {endtag received more text : List Byte} {buflen : ℕ}

theorem untilNul_append (received more : List Byte) :
    ∃ rest, untilNul (received ++ more) = untilNul received ++ rest := by
  rw [untilNul, List.takeWhile_append]
  split
  · rename_i hwhole
    refine ⟨more.takeWhile (· ≠ 0), ?_⟩
    have hself : received.takeWhile (· ≠ 0) = received :=
      (List.takeWhile_prefix _).eq_of_length hwhole
    rw [untilNul, hself]
  · exact ⟨[], (List.append_nil _).symm⟩

/-- Bytes that come later do not change a message that is there. -/
theorem message_append (h : message endtag received = some text) (more : List Byte) :
    message endtag (received ++ more) = some text := by
  obtain ⟨rd, hrd, rfl⟩ := Option.map_eq_some_iff.mp h
  obtain ⟨rest, hrest⟩ := untilNul_append received more
  have hfits : rd ≤ (untilNul received).length := by
    have hlength := (findAfter_isPrefix hrd).length_le
    have htake : ((untilNul received).take rd).length + endOfMessage.length ≤
      (untilNul received).length := by
      rwa [← List.length_append]
    have hpos : 0 < endOfMessage.length := by decide
    rw [List.length_take] at htake
    omega
  rw [message, hrest, findAfter_append hrd, Option.map_some, List.take_append_of_le_length hfits]

theorem message_of_prefix {stream : List Byte} (h : message endtag received = some text)
    (hstream : received <+: stream) : message endtag stream = some text := by
  obtain ⟨more, rfl⟩ := hstream
  exact message_append h more

theorem message_nil (endtag : List Byte) : message endtag [] = none := by
  cases h : message endtag [] with
  | none => rfl
  | some text =>
    obtain ⟨rd, hrd, -⟩ := Option.map_eq_some_iff.mp h
    have hlength := (findAfter_isPrefix hrd).length_le
    have hpos : 0 < endOfMessage.length := by decide
    rw [List.length_append] at hlength
    have hzero : (untilNul []).length = 0 := rfl
    omega

end CloudSsh.NetconfFraming
