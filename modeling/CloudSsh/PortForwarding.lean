import CloudSsh.RelayLoop
import CloudSsh.BufferedTransfers

/-!
# Forwarding a connection through a channel

The loops of `direct_tcpip.c` and `tcpip-forward.c`. What comes from the local socket goes to the
channel and the other way round, through one buffer. The socket, the channel and the readiness
test answer as they like, within the types of their results.
-/
namespace CloudSsh.PortForwarding
open EnvironmentPrograms InterruptedPrograms BufferedTransfers
open RelayLoop (Byte ReadResult libssh2ErrorEagain)

/-- The length of `buf`. -/
def bufSize : ℕ := 16384

structure System (σ : Type) where
  /-- What `select` returns, and whether the forwarded socket is in the set behind it. -/
  select : σ → (Int × Bool) × σ
  recv : (len : ℕ) → σ → ReadResult len × σ
  channelWrite : (buf : List Byte) → σ → Accepted buf.length × σ
  channelRead : (len : ℕ) → σ → ReadResult len × σ
  send : (buf : List Byte) → σ → Accepted buf.length × σ
  channelEof : σ → Int × σ

inductive Event where
  | select (rc : Int) (isset : Bool)
  | recv (size : ℕ) (len : Int) (bytes : List Byte)
  | channelWrite (buf : List Byte) (i : Int)
  | channelRead (size : ℕ) (len : Int) (bytes : List Byte)
  | send (buf : List Byte) (i : Int)
  | channelEof (ret : Int)
  | perror (text : String)
  | stderr (text : String)
  deriving DecidableEq

/-- Why the loop is left for `shutdown`. -/
inductive Exit where
  | select
  | recv
  | localDisconnected
  | channelWrite (i : Int)
  | channelRead (len : Int)
  | send
  | remoteDisconnected
  deriving DecidableEq

abbrev Forward (σ α : Type) := Routine σ Event Exit α

variable {σ : Type} (sys : System σ)

def select : Forward σ (Int × Bool) := ask sys.select fun r => .select r.1 r.2

def recv (size : ℕ) : Forward σ (ReadResult size) :=
  ask (sys.recv size) fun r => .recv size r.count r.bytes

def channelWrite (buf : List Byte) : Forward σ (Accepted buf.length) :=
  ask (sys.channelWrite buf) fun i => .channelWrite buf i

def channelRead (size : ℕ) : Forward σ (ReadResult size) :=
  ask (sys.channelRead size) fun r => .channelRead size r.count r.bytes

def send (buf : List Byte) : Forward σ (Accepted buf.length) :=
  ask (sys.send buf) fun i => .send buf i

def channelEof : Forward σ Int := ask sys.channelEof .channelEof

/-- A message, and `goto shutdown`. -/
def giveUp {α : Type} (message : Event) (x : Exit) : Forward σ α := do
  note message
  leave x

/-- `while (wr < len)` around `libssh2_channel_write(channel, buf + wr, len - wr)`. -/
def writeChannel (n : ℕ) (buf : List Byte) : Forward σ Unit :=
  turns (fun wr => do
    if wr < buf.length then
      let i ← channelWrite sys (buf.drop wr)
      if i.1 = libssh2ErrorEagain then
        pure (.inl wr)
      else if i.1 < 0 then
        giveUp (.stderr s!"libssh2_channel_write: {i.1}\n") (.channelWrite i)
      else
        pure (.inl (wr + i.1.toNat))
    else
      pure (.inr ())) n 0

/-- The loop in `tcpip-forward.c`: `do .. while (i > 0 && wr < len)`, with the whole buffer in every
turn. -/
def writeChannelWhole (n : ℕ) (buf : List Byte) : Forward σ Unit :=
  turns (fun wr => do
    let i ← channelWrite sys buf
    if i.1 < 0 then
      giveUp (.stderr s!"libssh2_channel_write: {i.1}\n") (.channelWrite i)
    else if i.1 > 0 ∧ wr + i.1.toNat < buf.length then
      pure (.inl (wr + i.1.toNat))
    else
      pure (.inr ())) n 0

/-- `while (wr < len)` around `send(forwardsock, buf + wr, len - wr, 0)`. -/
def sendLocal (n : ℕ) (buf : List Byte) : Forward σ Unit :=
  turns (fun wr => do
    if wr < buf.length then
      let i ← send sys (buf.drop wr)
      if i.1 ≤ 0 then
        giveUp (.perror "write") .send
      else
        pure (.inl (wr + i.1.toNat))
    else
      pure (.inr ())) n 0

/-- The inner `while (1)`: what the channel has goes to the socket, until reading would block. -/
def drainChannel (remoteGone : String) (n : ℕ) : Forward σ Unit :=
  turns (fun _ => do
    let r ← channelRead sys bufSize
    if r.count = libssh2ErrorEagain then
      pure (.inr ())
    else if r.count < 0 then
      giveUp (.stderr s!"libssh2_channel_read: {r.count}") (.channelRead r.count)
    else
      sendLocal sys n r.bytes
      if (← channelEof sys) ≠ 0 then
        giveUp (.stderr remoteGone) .remoteDisconnected
      else
        pure (.inl ())) n ()

/-- What is ready at the socket, handed to `toChannel`. -/
def receiveLocal (localGone : String) (toChannel : List Byte → Forward σ Unit) :
    Forward σ Unit := do
  let r ← recv sys bufSize
  if r.count < 0 then
    giveUp (.perror "read") .recv
  else if r.count = 0 then
    giveUp (.stderr localGone) .localDisconnected
  else
    toChannel r.bytes

/-- The outer `while (1)`. It is left only for `shutdown`. -/
def forwardLoop (localGone remoteGone : String) (toChannel : List Byte → Forward σ Unit) (n : ℕ) :
    Forward σ Empty :=
  turns (fun _ => do
    let (rc, isset) ← select sys
    if rc = -1 then
      giveUp (.perror "select") .select
    else
      (if rc ≠ 0 ∧ isset then receiveLocal sys localGone toChannel else pure ())
      drainChannel sys remoteGone n
      pure (.inl ())) n ()

/-- A peer's address, as the messages show it. -/
structure Peer where
  host : String
  port : ℕ

def directTcpip (client server : Peer) (n : ℕ) : Forward σ Empty :=
  forwardLoop sys s!"The client at {client.host}:{client.port} disconnected!\n"
    s!"The server at {server.host}:{server.port} disconnected!\n" (writeChannel sys n) n

def tcpipForward (server client : Peer) (n : ℕ) : Forward σ Empty :=
  forwardLoop sys s!"The local server at {server.host}:{server.port} disconnected!\n"
    s!"The remote client at {client.host}:{client.port} disconnected!\n" (writeChannelWhole sys n) n

/-! ## The two directions of a log -/

/-- What the socket sends towards the channel. -/
def outward : Reading Event Byte where
  taken
    | .recv _ _ bytes => bytes
    | _ => []
  offer
    | .channelWrite buf i => some (buf, i.toNat)
    | _ => none
  taken_nil e o h := by cases e <;> first | rfl | cases h

/-- What the channel brings for the socket. -/
def inward : Reading Event Byte where
  taken
    | .channelRead _ _ bytes => bytes
    | _ => []
  offer
    | .send buf i => some (buf, i.toNat)
    | _ => none
  taken_nil e o h := by cases e <;> first | rfl | cases h

/-- What the channel is offered is `Good`, given the log before it, where `Waits p` says that `p` is
to be offered next. Only reading from the socket and writing to the channel matter to either. -/
structure Discipline (Good : List Event → Event → Prop) (Waits : List Byte → List Event → Prop) :
    Prop where
  quiet : ∀ p l e, outward.taken e = [] → outward.offer e = none → Waits p l →
    Good l e ∧ Waits p (l ++ [e])
  recv : ∀ l size len bytes, Waits [] l → Good l (.recv size len bytes) ∧
    Waits bytes (l ++ [.recv size len bytes])

/-- Nothing is taken from either side while anything waits, and the socket is offered what came from
the channel and has not been accepted. -/
structure Orderly (Good : List Event → Event → Prop) (Waits : List Byte → List Event → Prop)
    (before : List Event) (e : Event) : Prop where
  offers : Good before e
  sends : inward.InOrder before e
  takes : ∀ size len bytes, e = .recv size len bytes ∨ e = .channelRead size len bytes →
    Waits [] before ∧ inward.Pending [] before ∧ bytes.length ≤ bufSize

/-- When the loop is left: only the side whose write failed can be missing anything. -/
structure Settled (Waits : List Byte → List Event → Prop) (x : Exit) (l : List Event) : Prop where
  outgoing : (∀ i, x ≠ .channelWrite i) → Waits [] l
  incoming : x ≠ .send → inward.Pending [] l

/-- `p` waits for the channel and `q` for the socket. -/
def Holds (Waits : List Byte → List Event → Prop) (p q : List Byte) (l : List Event) : Prop :=
  Waits p l ∧ inward.Pending q l

/-! ## One call after the other -/

section Calls

variable {Good : List Event → Event → Prop} {Waits : List Byte → List Event → Prop}
variable {p q : List Byte} {sys : System σ}

theorem bytes_of_nonpos {size : ℕ} {r : ReadResult size} (h : r.count ≤ 0) : r.bytes = [] := by
  cases r with
  | failed code nonpos => rfl
  | stored bytes pos fits =>
    simp only [ReadResult.count] at h
    omega

/-- A call that has nothing to do with either direction. -/
theorem quiet_meets {α : Type} {answer : σ → α × σ} {event : α → Event} (hd : Discipline Good Waits)
    (hout : ∀ a, outward.taken (event a) = [] ∧ outward.offer (event a) = none)
    (hin : ∀ a, inward.taken (event a) = [] ∧ inward.offer (event a) = none)
    (htakes : ∀ a size len bytes, event a ≠ .recv size len bytes ∧
      event a ≠ .channelRead size len bytes) :
    Meets (Orderly Good Waits) (Holds Waits p q) (ask answer event : Forward σ α)
      (fun _ => Holds Waits p q) (Settled Waits) := by
  apply Meets.ask
  · intro a l h
    refine ⟨(hd.quiet p l _ (hout a).1 (hout a).2 h.1).1, Reading.inOrder_of_none (hin a).2, ?_⟩
    intro size len bytes he
    exact (he.elim (htakes a size len bytes).1 (htakes a size len bytes).2).elim
  · intro a l h
    exact ⟨(hd.quiet p l _ (hout a).1 (hout a).2 h.1).2, h.2.quiet (hin a).2 (hin a).1⟩

theorem giveUp_meets {α : Type} {Q : α → List Event → Prop} {message : Event} {x : Exit}
    (hd : Discipline Good Waits)
    (hmessage : (∃ text, message = .perror text) ∨ ∃ text, message = .stderr text)
    (hp : (∀ i, x ≠ .channelWrite i) → p = []) (hq : x ≠ .send → q = []) :
    Meets (Orderly Good Waits) (Holds Waits p q) (giveUp message x : Forward σ α) Q
      (Settled Waits) := by
  apply Meets.bind (Q := fun _ => Holds Waits p q)
  · rcases hmessage with ⟨text, rfl⟩ | ⟨text, rfl⟩ <;>
      exact quiet_meets hd (fun _ => ⟨rfl, rfl⟩) (fun _ => ⟨rfl, rfl⟩) (by simp)
  · intro _
    exact Meets.leave fun l h => ⟨fun hx => hp hx ▸ h.1, fun hx => hq hx ▸ h.2⟩

theorem select_meets (hd : Discipline Good Waits) : Meets (Orderly Good Waits) (Holds Waits p q)
    (select sys) (fun _ => Holds Waits p q) (Settled Waits) :=
  quiet_meets hd (fun _ => ⟨rfl, rfl⟩) (fun _ => ⟨rfl, rfl⟩) (by simp)

theorem channelEof_meets (hd : Discipline Good Waits) : Meets (Orderly Good Waits) (Holds Waits p q)
    (channelEof sys) (fun _ => Holds Waits p q) (Settled Waits) :=
  quiet_meets hd (fun _ => ⟨rfl, rfl⟩) (fun _ => ⟨rfl, rfl⟩) (by simp)

theorem recv_meets (hd : Discipline Good Waits) : Meets (Orderly Good Waits) (Holds Waits [] [])
    (recv sys bufSize) (fun r => Holds Waits r.bytes []) (Settled Waits) := by
  apply Meets.ask
  · intro r l h
    refine ⟨(hd.recv l _ _ _ h.1).1, Reading.inOrder_of_none rfl, ?_⟩
    intro size len bytes he
    obtain ⟨-, -, rfl⟩ : bufSize = size ∧ r.count = len ∧ r.bytes = bytes := by simpa using he
    exact ⟨h.1, h.2, r.bytes_fit⟩
  · intro r l h
    exact ⟨(hd.recv l _ _ _ h.1).2, h.2.quiet rfl rfl⟩

theorem channelRead_meets (hd : Discipline Good Waits) : Meets (Orderly Good Waits)
    (Holds Waits [] []) (channelRead sys bufSize) (fun r => Holds Waits [] r.bytes)
    (Settled Waits) := by
  apply Meets.ask
  · intro r l h
    refine ⟨(hd.quiet [] l _ rfl rfl h.1).1, Reading.inOrder_of_none rfl, ?_⟩
    intro size len bytes he
    obtain ⟨-, -, rfl⟩ : bufSize = size ∧ r.count = len ∧ r.bytes = bytes := by simpa using he
    exact ⟨h.1, h.2, r.bytes_fit⟩
  · intro r l h
    exact ⟨(hd.quiet [] l _ rfl rfl h.1).2, h.2.take rfl⟩

theorem send_meets (hd : Discipline Good Waits) : Meets (Orderly Good Waits) (Holds Waits p q)
    (send sys q) (fun i => Holds Waits p (q.drop i.1.toNat)) (Settled Waits) := by
  apply Meets.ask
  · intro i l h
    exact ⟨(hd.quiet p l _ rfl rfl h.1).1, h.2.inOrder rfl, by simp⟩
  · intro i l h
    exact ⟨(hd.quiet p l _ rfl rfl h.1).2, h.2.accept rfl⟩

end Calls

/-! ## The loops -/

section Loops

variable {Good : List Event → Event → Prop} {Waits : List Byte → List Event → Prop}
variable {sys : System σ}

theorem sendLocal_meets (hd : Discipline Good Waits) (n : ℕ) (buf : List Byte) :
    Meets (Orderly Good Waits) (Holds Waits [] buf) (sendLocal sys n buf)
      (fun _ => Holds Waits [] []) (Settled Waits) := by
  apply Meets.turns (L := fun wr => Holds Waits [] (buf.drop wr))
  · exact fun _ h => h
  intro wr
  apply Meets.ite
  · intro _
    apply Meets.bind (send_meets hd)
    intro i
    simp only [List.drop_drop]
    apply Meets.ite
    · intro _
      exact giveUp_meets hd (.inl ⟨_, rfl⟩) (fun _ => rfl) fun h => absurd rfl h
    · intro _
      exact Meets.pure fun l h => h
  · intro hwr
    apply Meets.pure
    intro l h
    rwa [List.drop_eq_nil_of_le (Nat.le_of_not_lt hwr)] at h

theorem drainChannel_meets (hd : Discipline Good Waits) (remoteGone : String) (n : ℕ) :
    Meets (Orderly Good Waits) (Holds Waits [] []) (drainChannel sys remoteGone n)
      (fun _ => Holds Waits [] []) (Settled Waits) := by
  apply Meets.turns (L := fun _ => Holds Waits [] [])
  · exact fun _ h => h
  intro _
  apply Meets.bind (channelRead_meets hd)
  intro r
  apply Meets.ite
  · intro hr
    apply Meets.pure
    intro l h
    rwa [bytes_of_nonpos (by rw [hr]; decide)] at h
  · intro _
    apply Meets.ite
    · intro hr
      rw [bytes_of_nonpos (Int.le_of_lt hr)]
      exact giveUp_meets hd (.inr ⟨_, rfl⟩) (fun _ => rfl) fun _ => rfl
    · intro _
      apply Meets.bind (sendLocal_meets hd n r.bytes)
      intro _
      apply Meets.bind (channelEof_meets hd)
      intro eof
      apply Meets.ite
      · intro _
        exact giveUp_meets hd (.inr ⟨_, rfl⟩) (fun _ => rfl) fun _ => rfl
      · intro _
        exact Meets.pure fun l h => h

theorem receiveLocal_meets (hd : Discipline Good Waits) (localGone : String)
    {toChannel : List Byte → Forward σ Unit}
    (hwrite : ∀ buf, buf ≠ [] → Meets (Orderly Good Waits) (Holds Waits buf []) (toChannel buf)
      (fun _ => Holds Waits [] []) (Settled Waits)) :
    Meets (Orderly Good Waits) (Holds Waits [] []) (receiveLocal sys localGone toChannel)
      (fun _ => Holds Waits [] []) (Settled Waits) := by
  apply Meets.bind (recv_meets hd)
  intro r
  apply Meets.ite
  · intro hr
    rw [bytes_of_nonpos (Int.le_of_lt hr)]
    exact giveUp_meets hd (.inl ⟨_, rfl⟩) (fun _ => rfl) fun _ => rfl
  · intro hneg
    apply Meets.ite
    · intro hr
      rw [bytes_of_nonpos (Int.le_of_eq hr)]
      exact giveUp_meets hd (.inr ⟨_, rfl⟩) (fun _ => rfl) fun _ => rfl
    · intro hzero
      apply hwrite
      cases r with
      | failed code nonpos =>
        simp only [ReadResult.count] at hneg hzero
        omega
      | stored bytes pos fits => exact List.ne_nil_of_length_pos pos

theorem forwardLoop_meets (hd : Discipline Good Waits) (localGone remoteGone : String)
    {toChannel : List Byte → Forward σ Unit}
    (hwrite : ∀ buf, buf ≠ [] → Meets (Orderly Good Waits) (Holds Waits buf []) (toChannel buf)
      (fun _ => Holds Waits [] []) (Settled Waits)) (n : ℕ) :
    Meets (Orderly Good Waits) (Holds Waits [] [])
      (forwardLoop sys localGone remoteGone toChannel n) (fun _ _ => False) (Settled Waits) := by
  apply Meets.turns (L := fun _ => Holds Waits [] [])
  · exact fun _ h => h
  intro _
  apply Meets.bind (select_meets hd)
  intro r
  apply Meets.ite
  · intro _
    exact giveUp_meets hd (.inl ⟨_, rfl⟩) (fun _ => rfl) fun _ => rfl
  · intro _
    apply Meets.bind (Q := fun _ => Holds Waits [] [])
    · apply Meets.ite
      · intro _
        exact receiveLocal_meets hd localGone hwrite
      · intro _
        exact Meets.pure fun l h => h
    · intro _
      apply Meets.bind (drainChannel_meets hd remoteGone n)
      intro _
      exact Meets.pure fun l h => h

end Loops

/-! ## The loop that goes on behind what was accepted -/

theorem outward_discipline : Discipline outward.InOrder outward.Pending where
  quiet _ _ _ ht ho h := ⟨Reading.inOrder_of_none ho, h.quiet ho ht⟩
  recv _ _ _ _ h := ⟨Reading.inOrder_of_none rfl, h.take rfl⟩

variable {sys}

theorem writeChannel_meets (n : ℕ) (buf : List Byte) :
    Meets (Orderly outward.InOrder outward.Pending) (Holds outward.Pending buf [])
      (writeChannel sys n buf) (fun _ => Holds outward.Pending [] [])
      (Settled outward.Pending) := by
  apply Meets.turns (L := fun wr => Holds outward.Pending (buf.drop wr) [])
  · exact fun _ h => h
  intro wr
  apply Meets.ite
  · intro _
    apply Meets.bind (Q := fun i => Holds outward.Pending (buf.drop (wr + i.1.toNat)) [])
    · apply Meets.ask
      · intro i l h
        exact ⟨h.1.inOrder rfl, Reading.inOrder_of_none rfl, by simp⟩
      · intro i l h
        rw [← List.drop_drop]
        exact ⟨h.1.accept rfl, h.2.quiet rfl rfl⟩
    intro i
    apply Meets.ite
    · intro hi
      apply Meets.pure
      intro l h
      have hzero : i.1.toNat = 0 := by rw [hi]; rfl
      simpa [hzero] using h
    · intro _
      apply Meets.ite
      · intro _
        exact giveUp_meets outward_discipline (.inr ⟨_, rfl⟩)
          (fun h => absurd rfl (h i)) fun _ => rfl
      · intro _
        exact Meets.pure fun l h => h
  · intro hwr
    apply Meets.pure
    intro l h
    rwa [List.drop_eq_nil_of_le (Nat.le_of_not_lt hwr)] at h

/-- At no moment is more than one buffer on its way. -/
theorem held_fits {l : List Event} (h : Throughout (Orderly outward.InOrder outward.Pending) l) :
    ∃ p q, Holds outward.Pending p q l ∧ p.length + q.length ≤ bufSize := by
  induction l using List.reverseRecOn with
  | nil => exact ⟨[], [], ⟨rfl, rfl⟩, Nat.zero_le _⟩
  | append_singleton l e ih =>
    obtain ⟨p, q, ⟨hp, hq⟩, hlen⟩ := ih h.init
    have he := h.last
    cases e with
    | recv size len bytes =>
      obtain ⟨hempty, hempty', hfits⟩ := he.takes size len bytes (.inl rfl)
      exact ⟨bytes, [], ⟨hempty.take rfl, hempty'.quiet rfl rfl⟩, by simpa using hfits⟩
    | channelRead size len bytes =>
      obtain ⟨hempty, hempty', hfits⟩ := he.takes size len bytes (.inr rfl)
      exact ⟨[], bytes, ⟨hempty.quiet rfl rfl, hempty'.take rfl⟩, by simpa using hfits⟩
    | channelWrite buf i =>
      obtain rfl := hp.unique (he.offers buf _ rfl)
      refine ⟨p.drop i.toNat, q, ⟨hp.accept rfl, hq.quiet rfl rfl⟩, ?_⟩
      rw [List.length_drop]
      omega
    | send buf i =>
      obtain rfl := hq.unique (he.sends buf _ rfl)
      refine ⟨p, q.drop i.toNat, ⟨hp.quiet rfl rfl, hq.accept rfl⟩, ?_⟩
      rw [List.length_drop]
      omega
    | _ => exact ⟨p, q, ⟨hp.quiet rfl rfl, hq.quiet rfl rfl⟩, hlen⟩

theorem directTcpip_meets (client server : Peer) (n : ℕ) :
    Meets (Orderly outward.InOrder outward.Pending) (Holds outward.Pending [] [])
      (directTcpip sys client server n) (fun _ _ => False) (Settled outward.Pending) :=
  forwardLoop_meets outward_discipline _ _ (fun buf _ => writeChannel_meets n buf) n

/-- Whatever the socket and the channel answer, `direct_tcpip.c` offers either side exactly what
came from the other and was not accepted yet, never holds more than one buffer, and leaves nothing
behind but what a failed write could not take. -/
theorem directTcpip_forwards (sys : System σ) (client server : Peer) (n : ℕ) (s : σ) :
    let run := directTcpip sys client server n s
    Throughout (Orderly outward.InOrder outward.Pending) run.log ∧
      (∀ moment, moment <+: run.log →
        ∃ p q, Holds outward.Pending p q moment ∧ p.length + q.length ≤ bufSize) ∧
      ∀ x, run.value = .left x → Settled outward.Pending x run.log := by
  intro run
  have hmeets := @directTcpip_meets _ sys client server n
  have hall := hmeets.log ⟨rfl, rfl⟩ s
  exact ⟨hall, fun moment hm => held_fits (hall.of_prefix hm),
    fun x hx => hmeets.left ⟨rfl, rfl⟩ hx⟩

/-! ## The loop that starts over -/

/-- Every write to the channel has accepted all it was offered. -/
def Whole (l : List Event) : Prop := ∀ buf i, .channelWrite buf i ∈ l → i = buf.length

/-- So has every one but the last. -/
def WholeBefore (l : List Event) : Prop :=
  ∀ before buf i after, l = before ++ .channelWrite buf i :: after →
    (∃ buf' i', .channelWrite buf' i' ∈ after) → i = buf.length

/-- An offer after offers that were in order is in order itself if and only if the writes before
accepted all they were offered. -/
def OrderedIfWhole (before : List Event) (e : Event) : Prop :=
  ∀ buf i, e = .channelWrite buf i → Throughout outward.InOrder before →
    (outward.InOrder before e ↔ Whole before)

/-- What waits, as long as everything was in order: all that is offered next if and only if the
writes before accepted all they were offered. -/
def WaitsIfWhole (p : List Byte) (l : List Event) : Prop :=
  Throughout outward.InOrder l → ∃ rest, outward.Pending rest l ∧ (rest = p ↔ Whole l)

section StartsOver

variable {l : List Event} {e : Event} {p buf : List Byte} {i : Int}

theorem whole_concat_of_none (h : outward.offer e = none) : Whole (l ++ [e]) ↔ Whole l := by
  constructor
  · intro hw buf i hi
    exact hw buf i (List.mem_append_left _ hi)
  · intro hw buf i hi
    rcases List.mem_append.mp hi with hi | hi
    · exact hw buf i hi
    · obtain rfl := List.mem_singleton.mp hi
      cases h

theorem whole_concat : Whole (l ++ [.channelWrite buf i]) ↔ Whole l ∧ i = buf.length := by
  constructor
  · intro hw
    exact ⟨fun b j hj => hw b j (List.mem_append_left _ hj), hw buf i (by simp)⟩
  · rintro ⟨hw, hi⟩ b j hj
    rcases List.mem_append.mp hj with hj | hj
    · exact hw b j hj
    · obtain ⟨rfl, rfl⟩ : b = buf ∧ j = i := by simpa using hj
      exact hi

theorem startsOver_discipline : Discipline OrderedIfWhole WaitsIfWhole where
  quiet p l e ht ho h := by
    constructor
    · rintro buf i rfl
      cases ho
    · intro hall
      obtain ⟨rest, hrest, hiff⟩ := h hall.init
      exact ⟨rest, hrest.quiet ho ht, hiff.trans (whole_concat_of_none ho).symm⟩
  recv l size len bytes h := by
    constructor
    · intro buf i he
      cases he
    · intro hall
      obtain ⟨rest, hrest, hiff⟩ := h hall.init
      refine ⟨rest ++ bytes, hrest.take rfl, ?_⟩
      rw [whole_concat_of_none rfl, ← hiff]
      exact List.append_left_eq_self

/-- One write of the buffer. What waits behind it is never the buffer again. -/
theorem WaitsIfWhole.write (h : WaitsIfWhole buf l) :
    OrderedIfWhole l (.channelWrite buf i) ∧
      (Throughout outward.InOrder (l ++ [.channelWrite buf i]) → Whole l ∧
        outward.Pending (buf.drop i.toNat) (l ++ [.channelWrite buf i])) := by
  have hkey : Throughout outward.InOrder l →
      (outward.InOrder l (.channelWrite buf i) ↔ outward.Pending buf l) := by
    intro _
    constructor
    · exact fun ho => ho buf _ rfl
    · exact fun hp => hp.inOrder rfl
  constructor
  · rintro _ _ he hall
    cases he
    obtain ⟨rest, hrest, hiff⟩ := h hall
    rw [hkey hall, ← hiff]
    constructor
    · exact fun hp => hrest.unique hp
    · rintro rfl
      exact hrest
  · intro hall
    have hp := (hkey hall.init).mp hall.last
    obtain ⟨rest, hrest, hiff⟩ := h hall.init
    exact ⟨hiff.mp (hrest.unique hp), hp.accept rfl⟩

theorem writeChannelWhole_meets (n : ℕ) (hbuf : buf ≠ []) :
    Meets (Orderly OrderedIfWhole WaitsIfWhole) (Holds WaitsIfWhole buf [])
      (writeChannelWhole sys n buf) (fun _ => Holds WaitsIfWhole [] []) (Settled WaitsIfWhole) := by
  have hpos : 0 < buf.length := List.length_pos_iff.mpr hbuf
  apply Meets.turns (L := fun _ => Holds WaitsIfWhole buf [])
  · exact fun _ h => h
  intro wr
  -- behind a write: the buffer is offered again, or the loop ends with the rest not accepted
  apply Meets.bind (Q := fun (i : Accepted buf.length) l => inward.Pending [] l ∧
    (Throughout outward.InOrder l →
    outward.Pending (buf.drop i.1.toNat) l ∧ (Whole l ↔ i.1 = buf.length)))
  · apply Meets.ask
    · intro i l h
      exact ⟨h.1.write.1, Reading.inOrder_of_none rfl, by simp⟩
    · intro i l h
      refine ⟨h.2.quiet rfl rfl, fun hall => ?_⟩
      obtain ⟨hwhole, hp⟩ := h.1.write.2 hall
      exact ⟨hp, by simp [whole_concat, hwhole]⟩
  intro i
  have hi := i.2
  apply Meets.ite
  · intro _
    apply Meets.bind (Q := fun _ => inward.Pending [])
    · apply Meets.note
      · intro l h
        exact ⟨by simp [OrderedIfWhole], Reading.inOrder_of_none rfl, by simp⟩
      · intro l h
        exact h.1.quiet rfl rfl
    · intro _
      exact Meets.leave fun l h => ⟨fun hx => absurd rfl (hx i), fun _ => h⟩
  · intro hneg
    have hdrop : buf.drop i.1.toNat = [] ↔ i.1 = buf.length := by
      rw [List.drop_eq_nil_iff]
      omega
    apply Meets.ite
    · rintro ⟨hlt, hwr⟩
      apply Meets.pure
      rintro l ⟨hin, hout⟩
      refine ⟨fun hall => ?_, hin⟩
      obtain ⟨hp, hwhole⟩ := hout hall
      refine ⟨_, hp, ?_⟩
      rw [hwhole]
      constructor
      · intro he
        have hlen := congrArg List.length he
        rw [List.length_drop] at hlen
        omega
      · intro he
        omega
    · intro _
      apply Meets.pure
      rintro l ⟨hin, hout⟩
      refine ⟨fun hall => ?_, hin⟩
      obtain ⟨hp, hwhole⟩ := hout hall
      exact ⟨_, hp, hdrop.trans hwhole.symm⟩

theorem Whole.before (h : Whole l) : WholeBefore l := by
  intro before buf i after hl _
  apply h buf i
  simp [hl]

theorem WholeBefore.init (h : WholeBefore (l ++ [e])) : WholeBefore l := by
  intro before buf i after hl hlater
  apply h before buf i (after ++ [e])
  · rw [hl, List.append_assoc, List.cons_append]
  · obtain ⟨buf', i', hmem⟩ := hlater
    exact ⟨buf', i', List.mem_append_left _ hmem⟩

theorem WholeBefore.whole (h : WholeBefore (l ++ [.channelWrite buf i])) : Whole l := by
  intro b j hj
  obtain ⟨before, after, rfl⟩ := List.append_of_mem hj
  exact h before b j (after ++ [.channelWrite buf i]) (by simp) ⟨buf, i, by simp⟩

theorem inOrder_iff_wholeBefore (h : Throughout OrderedIfWhole l) :
    Throughout outward.InOrder l ↔ WholeBefore l := by
  constructor
  · intro hall before buf i after hl hlater
    obtain ⟨buf', i', hmem⟩ := hlater
    obtain ⟨mid, after', rfl⟩ := List.append_of_mem hmem
    have hsplit : l = (before ++ .channelWrite buf i :: mid) ++
      .channelWrite buf' i' :: after' := by
      simp [hl]
    have hbefore : Throughout outward.InOrder (before ++ .channelWrite buf i :: mid) := by
      rw [hsplit] at hall
      exact hall.init
    exact (h _ _ _ hsplit buf' i' rfl hbefore).mp (hall _ _ _ hsplit) buf i (by simp)
  · intro hwhole
    induction l using List.reverseRecOn with
    | nil => exact throughout_nil
    | append_singleton l e ih =>
      have hall := ih h.init hwhole.init
      apply throughout_concat hall
      cases ho : outward.offer e with
      | none => exact Reading.inOrder_of_none ho
      | some o =>
        obtain ⟨buf, i, rfl⟩ : ∃ buf i, e = .channelWrite buf i := by
          cases e with
          | channelWrite buf i => exact ⟨buf, i, rfl⟩
          | _ => cases ho
        exact (h.last buf i rfl hall).mpr hwhole.whole

end StartsOver

theorem tcpipForward_meets (server client : Peer) (n : ℕ) :
    Meets (Orderly OrderedIfWhole WaitsIfWhole) (Holds WaitsIfWhole [] [])
      (tcpipForward sys server client n) (fun _ _ => False) (Settled WaitsIfWhole) :=
  forwardLoop_meets startsOver_discipline _ _ (fun _ hbuf => writeChannelWhole_meets n hbuf) n

/-- `tcpip-forward.c` keeps the order towards the socket, and towards the channel exactly as long as
the channel accepts all that it is offered: behind a shorter write the next one starts with bytes
that were accepted before, or skips some that were not. -/
theorem tcpipForward_forwards_iff (sys : System σ) (server client : Peer) (n : ℕ) (s : σ) :
    let run := tcpipForward sys server client n s
    Throughout inward.InOrder run.log ∧
      (Throughout outward.InOrder run.log ↔ WholeBefore run.log) ∧
      ∀ x, run.value = .left x → (x ≠ .send → inward.Pending [] run.log) ∧
        ((∀ i, x ≠ .channelWrite i) → Whole run.log → outward.Pending [] run.log) := by
  intro run
  have hstart : Holds WaitsIfWhole [] [] [] := by
    refine ⟨fun _ => ⟨[], rfl, ?_⟩, rfl⟩
    simp [Whole]
  have hmeets := @tcpipForward_meets _ sys server client n
  have hall := hmeets.log hstart s
  have hiff := inOrder_iff_wholeBefore (hall.mono fun _ _ h => h.offers)
  refine ⟨hall.mono fun _ _ h => h.sends, hiff, fun x hx => ?_⟩
  have hsettled := hmeets.left hstart hx
  refine ⟨hsettled.incoming, fun hwrite hwhole => ?_⟩
  obtain ⟨rest, hrest, hempty⟩ := hsettled.outgoing hwrite (hiff.mpr hwhole.before)
  rwa [hempty.mpr hwhole] at hrest

end CloudSsh.PortForwarding
