import CloudSsh.EchoExchange

/-!
# Runs of the echo test

In every run of `ssh2_echo.c` the variables are told from the log: what was sent and what came
back. If what was sent comes back unchanged, a run that succeeds has sent letters only and got
them all.
-/
namespace CloudSsh.EchoRuns
open EnvironmentPrograms InterruptedPrograms BufferedTransfers EchoExchange
open RelayLoop (Byte ReadResult libssh2ErrorEagain)

variable {σ : Type} {sys : System σ} {l : List Event} {e : Event} {i : State}
variable {r : Option (Int × Revents)}

/-- The variables, told from the log. The last poll is `r`. -/
structure Accounts (r : Option (Int × Revents)) (i : State) (l : List Event) : Prop where
  buffer : i.buffer = bufferOf l
  size : i.buffer.length = bufsize
  written : i.totwritten = (sentOf l).length
  read : i.totread = Int32.ofNat (receivedOf l).length
  within : (sentOf l).length ≤ totsize
  pollout : i.pollout = true ↔ ¬ EofSent l
  polled : lastPoll l = r

theorem accounts_start : Accounts none start [] where
  buffer := rfl
  size := List.length_replicate
  written := rfl
  read := rfl
  within := Nat.zero_le _
  pollout := by simp [start, EofSent]
  polled := rfl

/-- The counters of partial and repeated calls are of no account. -/
theorem Accounts.counters (h : Accounts r i l) (partials rereads rewrites : Int32) :
    Accounts r { i with partials := partials, rereads := rereads, rewrites := rewrites } l :=
  ⟨h.buffer, h.size, h.written, h.read, h.within, h.pollout, h.polled⟩

/-- An entry that moves no byte and sends no EOF. -/
theorem Accounts.still {r' : Option (Int × Revents)} (h : Accounts r i l) (hsent : sentIn e = [])
    (hreceived : receivedIn e = []) (hpolled : polledIn r e = r')
    (heof : EofSent (l ++ [e]) ↔ EofSent l) : Accounts r' i (l ++ [e]) := by
  constructor
  · rw [bufferOf_concat, hreceived, overlay_nil, h.buffer]
  · exact h.size
  · simpa [hsent] using h.written
  · simpa [hreceived] using h.read
  · simpa [hsent] using h.within
  · rw [heof]
    exact h.pollout
  · rw [lastPoll_concat, h.polled, hpolled]

/-- The calls that neither move a byte nor look at the channel's state, and the messages. -/
def Plain : Event → Prop
  | .waitsocket _ | .exitStatus _ | .exitSignal _ | .stderr _ => True
  | _ => False

theorem Plain.orderly (he : Plain e) : Orderly l e := by
  cases e with
  | poll pollout rc revents => exact he.elim
  | channelRead size n mem => exact he.elim
  | channelWrite buf n => exact he.elim
  | sendEof rc => exact he.elim
  | channelClose rc => exact he.elim
  | _ => exact ⟨nofun, nofun, nofun, nofun⟩

theorem Accounts.plain (h : Accounts r i l) (he : Plain e) : Accounts r i (l ++ [e]) := by
  cases e with
  | poll pollout rc revents => exact he.elim
  | channelRead size n mem => exact he.elim
  | channelWrite buf n => exact he.elim
  | sendEof rc => exact he.elim
  | channelClose rc => exact he.elim
  | _ => exact h.still rfl rfl rfl (by simp [EofSent])

variable {E : Int → List Event → Prop}

theorem ask_accounts {α : Type} {answer : σ → α × σ} (event : α → Event)
    (h : ∀ a, Plain (event a)) :
    Meets Orderly (Accounts r i) (ask answer event) (fun _ => Accounts r i) E :=
  Meets.ask (fun a _ _ => (h a).orderly) fun a _ hl => hl.plain (h a)

theorem note_accounts (text : String) :
    Meets Orderly (Accounts r i) (note (.stderr text) : Echo σ Unit) (fun _ => Accounts r i) E :=
  ask_accounts _ fun _ => trivial

/-- How the program gives up. -/
def GivesUp (code : Int) (l : List Event) : Prop := code = 1 ∧ ∃ r i, Accounts r i l

theorem fail_accounts {α : Type} {Q : α → List Event → Prop} (text : String) :
    Meets Orderly (Accounts r i) (fail text : Echo σ α) Q GivesUp := by
  apply Meets.bind (note_accounts text)
  intro _
  exact Meets.leave fun l hl => ⟨rfl, r, i, hl⟩

/-- The state behind a read. -/
def store (i : State) (r : ReadResult bufsize) : State :=
  { i with buffer := overlay i.buffer r.bytes, totread := i.totread + Int32.ofNat r.bytes.length }

theorem store_failed (i : State) {r : ReadResult bufsize} (h : r.count < 0) : store i r = i := by
  have hnone : r.bytes = [] := ReadResult.bytes_eq_nil (by omega)
  rw [store, hnone, overlay_nil, List.length_nil]
  simp

theorem Accounts.stored (h : Accounts r i l) (n : ReadResult bufsize) :
    Accounts r (store i n) (l ++ [.channelRead bufsize n.count n.bytes]) := by
  have hfits := n.bytes_fit
  have heof : EofSent (l ++ [.channelRead bufsize n.count n.bytes]) ↔ EofSent l := by simp [EofSent]
  constructor
  · rw [bufferOf_concat, ← h.buffer]
    rfl
  · simp [store, overlay, h.size]
    omega
  · simpa [store, sentIn] using h.written
  · rw [receivedOf_concat, List.length_append, Int32.ofNat_add, ← h.read]
    rfl
  · simpa [sentIn] using h.within
  · rw [heof]
    exact h.pollout
  · rw [lastPoll_concat]
    exact h.polled

theorem readPart_accounts : Meets Orderly (Accounts r i) (readPart sys i) (Accounts r) GivesUp := by
  apply Meets.bind (Q := fun n => Accounts r (store i n))
  · apply Meets.ask
    · exact fun n l _ => ⟨nofun, nofun, nofun, nofun⟩
    · exact fun n l hl => hl.stored n
  intro n
  apply Meets.ite
  · intro hagain
    rw [store_failed i (by rw [hagain]; decide)]
    apply Meets.bind (note_accounts _)
    intro _
    exact Meets.pure fun l hl => hl.counters _ _ _
  · intro _
    apply Meets.ite
    · exact fun _ => fail_accounts _
    · intro hnonneg
      rw [ReadResult.int32_count (Int.not_lt.mp hnonneg)]
      apply Meets.bind (note_accounts _)
      intro _
      exact Meets.pure fun l hl => hl

theorem written_accounts (n : ℕ) :
    Meets Orderly (Accounts r { i with totwritten := i.totwritten + n })
      (written i n : Echo σ State)
      (Accounts r) GivesUp := by
  apply Meets.bind (note_accounts _)
  intro _
  apply Meets.ite
  · intro _
    apply Meets.bind (note_accounts _)
    intro _
    apply Meets.bind (note_accounts _)
    intro _
    exact Meets.pure fun l hl => hl.counters _ _ _
  · intro _
    apply Meets.bind (note_accounts _)
    intro _
    exact Meets.pure fun l hl => hl

theorem Accounts.offer (h : Accounts r i l) (hmore : i.totwritten < totsize) {buf : List Byte}
    (hbuf : buf = i.buffer.take (min (totsize - i.totwritten) bufsize)) (n : Int) :
    Orderly l (.channelWrite buf n) := by
  refine ⟨?_, nofun, nofun, nofun⟩
  intro b m he
  cases he
  rw [hbuf, ← h.written]
  refine ⟨hmore, by rw [h.buffer], ?_⟩
  rw [List.length_take, h.size]
  omega

theorem Accounts.accepted (h : Accounts r i l) {buf : List Byte}
    (hbuf : buf = i.buffer.take (min (totsize - i.totwritten) bufsize)) (n : Accepted buf.length) :
    Accounts r { i with totwritten := i.totwritten + n.1.toNat }
      (l ++ [.channelWrite buf n.1]) := by
  have hn := n.2
  have hwritten := h.written
  have hwithin := h.within
  have hlen : buf.length ≤ totsize - i.totwritten := by
    rw [hbuf, List.length_take]
    omega
  have hsent : (sentIn (.channelWrite buf n.1)).length = n.1.toNat := by
    rw [sentIn, List.length_take]
    omega
  have heof : EofSent (l ++ [.channelWrite buf n.1]) ↔ EofSent l := by simp [EofSent]
  constructor
  · rw [bufferOf_concat, h.buffer]
    rfl
  · exact h.size
  · rw [sentOf_concat, List.length_append, hsent, ← hwritten]
  · simpa [receivedIn] using h.read
  · rw [sentOf_concat, List.length_append, hsent]
    omega
  · rw [heof]
    exact h.pollout
  · rw [lastPoll_concat]
    exact h.polled

theorem writeSome_accounts (hmore : i.totwritten < totsize) :
    Meets Orderly (Accounts r i) (writeSome sys i) (Accounts r) GivesUp := by
  apply Meets.bind (Q := fun n => Accounts r { i with totwritten := i.totwritten + n.1.toNat })
  · apply Meets.ask
    · exact fun n l hl => hl.offer hmore rfl n.1
    · exact fun n l hl => hl.accepted rfl n
  intro n
  have hnothing : n.1 < 0 → ({ i with totwritten := i.totwritten + n.1.toNat } : State) = i := by
    intro hneg
    rw [Int.toNat_of_nonpos (Int.le_of_lt hneg), Nat.add_zero]
  apply Meets.ite
  · intro hagain
    rw [hnothing (by rw [hagain]; decide)]
    apply Meets.bind (note_accounts _)
    intro _
    exact Meets.pure fun l hl => hl.counters _ _ _
  · intro _
    apply Meets.ite
    · exact fun _ => fail_accounts _
    · exact fun _ => written_accounts _

theorem Accounts.eofFailed (h : Accounts r i l) {rc : Int} (hneg : rc < 0) :
    Accounts r i (l ++ [.sendEof rc]) := by
  refine h.still rfl rfl rfl ?_
  constructor
  · rintro ⟨code, hcode, hmem⟩
    rcases List.mem_append.mp hmem with hmem | hmem
    · exact ⟨code, hcode, hmem⟩
    · cases List.mem_singleton.mp hmem
      omega
  · rintro ⟨code, hcode, hmem⟩
    exact ⟨code, hcode, List.mem_append_left _ hmem⟩

theorem Accounts.eofSent (h : Accounts r i l) {rc : Int} (hnonneg : 0 ≤ rc) :
    Accounts r { i with pollout := false } (l ++ [.sendEof rc]) := by
  have heof : EofSent (l ++ [.sendEof rc]) := ⟨rc, hnonneg, by simp⟩
  constructor
  · rw [bufferOf_concat, h.buffer]
    rfl
  · exact h.size
  · simpa [sentIn] using h.written
  · simpa [receivedIn] using h.read
  · simpa [sentIn] using h.within
  · simp [heof]
  · rw [lastPoll_concat]
    exact h.polled

theorem sendEof_accounts (hall : ¬ i.totwritten < totsize) :
    Meets Orderly (Accounts r i) (sendEof sys i) (Accounts r) GivesUp := by
  apply Meets.bind (Q := fun rc => Accounts r (if rc < 0 then i else { i with pollout := false }))
  · apply Meets.ask
    · intro rc l hl
      refine ⟨nofun, ?_, nofun, nofun⟩
      intro _ _
      have hwritten := hl.written
      have hwithin := hl.within
      omega
    · intro rc l hl
      split
      · exact hl.eofFailed ‹_›
      · exact hl.eofSent (Int.not_lt.mp ‹_›)
  intro rc
  apply Meets.ite
  · intro hagain
    have hneg : rc < 0 := by
      rw [hagain]
      decide
    rw [if_pos hneg]
    apply Meets.bind (note_accounts _)
    intro _
    exact Meets.pure fun l hl => hl
  · intro _
    apply Meets.ite
    · intro hneg
      rw [if_pos hneg]
      exact fail_accounts _
    · intro hnonneg
      rw [if_neg hnonneg]
      apply Meets.bind (note_accounts _)
      intro _
      exact Meets.pure fun l hl => hl

theorem writePart_accounts : Meets Orderly (Accounts r i) (writePart sys i) (Accounts r) GivesUp :=
  Meets.ite writeSome_accounts sendEof_accounts

/-! ## The loop -/

/-- Between two turns. -/
def Turning (i : State) (l : List Event) : Prop := ∃ r, Accounts r i l

/-- Behind the loop. -/
def Finished (i : State) (l : List Event) : Prop := ∃ r, Accounts r i l ∧ Over l

theorem turn_meets (i : State) :
    Meets Orderly (Turning i) (turn sys i)
      (fun r l => r.elim (Turning · l) (Finished · l)) GivesUp := by
  apply Meets.known
  intro r
  apply Meets.bind (Q := fun r => Accounts (some r) i)
  · apply Meets.ask
    · intro r l hl
      refine ⟨nofun, nofun, ?_, nofun⟩
      intro _ _ _ he
      cases he
      exact hl.pollout
    · exact fun r l hl => hl.still rfl rfl rfl (by simp [EofSent])
  rintro ⟨rc, revents⟩
  apply Meets.ite
  · exact fun _ => Meets.pure fun l hl => ⟨_, hl⟩
  intro hrc
  apply Meets.bind (Q := Accounts (some (rc, revents)))
  · apply Meets.ite
    · exact fun _ => readPart_accounts
    · exact fun _ => Meets.pure fun l hl => hl
  intro i
  apply Meets.bind (Q := Accounts (some (rc, revents)))
  · apply Meets.ite
    · exact fun _ => writePart_accounts
    · exact fun _ => Meets.pure fun l hl => hl
  intro i
  apply Meets.ite
  · intro hover
    exact Meets.pure fun l hl => ⟨_, hl, rc, revents, hl.polled, by omega, hover.1, hover.2⟩
  · exact fun _ => Meets.pure fun l hl => ⟨_, hl⟩

theorem exchange_meets (n : ℕ) :
    Meets Orderly (Accounts none start) (exchange sys n) Finished GivesUp := by
  apply Meets.turns (L := Turning)
  · exact fun _ hl => ⟨_, hl⟩
  · exact turn_meets

/-! ## The end -/

theorem showSignal_accounts (exitsignal : Option String) :
    Meets Orderly (Accounts r i) (showSignal exitsignal : Echo σ Unit)
      (fun _ => Accounts r i) E := by
  cases exitsignal with
  | some exitsignal => exact note_accounts _
  | none => exact Meets.pure fun l hl => hl

/-- What a run that succeeds has behind it, as far as an `int` tells. -/
def Balanced (l : List Event) : Prop :=
  Int32.ofNat (receivedOf l).length = Int32.ofNat (sentOf l).length ∧ (sentOf l).length ≤ totsize

/-- An `int` tells counts apart up to multiples of what it wraps around. -/
theorem mod_of_ofNat {k m : ℕ} (h : Int32.ofNat k = Int32.ofNat m) : k % 2 ^ 32 = m % 2 ^ 32 := by
  have hbits := congrArg (fun x : Int32 => x.toBitVec.toNat) h
  simpa using hbits

theorem totsize_lt : totsize < 2 ^ 32 := by decide

theorem Balanced.mod_eq (h : Balanced l) : (receivedOf l).length % 2 ^ 32 = (sentOf l).length := by
  rw [mod_of_ofNat h.1, Nat.mod_eq_of_lt (h.2.trans_lt totsize_lt)]

/-- If no more came back than was sent, the `int` tells the truth. -/
theorem Balanced.eq_of_le (h : Balanced l) (hle : (receivedOf l).length ≤ (sentOf l).length) :
    (receivedOf l).length = (sentOf l).length := by
  rw [← h.mod_eq, Nat.mod_eq_of_lt ((hle.trans h.2).trans_lt totsize_lt)]

theorem conclude_meets (i : State) (exitcode : Int) (exitsignal : Option String) :
    Meets Orderly (Accounts r i) (conclude i exitcode exitsignal : Echo σ Int)
      (fun _ => Balanced) GivesUp := by
  apply Meets.bind (showSignal_accounts exitsignal)
  intro _
  apply Meets.bind (note_accounts _)
  intro _
  apply Meets.ite
  · exact fun _ => fail_accounts _
  · intro heq
    apply Meets.pure
    intro l hl
    rw [not_not, hl.written, hl.read] at heq
    exact ⟨heq.symm, hl.within⟩

theorem echo_meets (n : ℕ) :
    Meets Orderly (Accounts none start) (echo sys n) (fun _ => Balanced) GivesUp := by
  apply Meets.bind (exchange_meets n)
  intro i
  apply Meets.bind (Q := fun _ => Turning i)
  · apply Meets.turns (L := fun _ => Finished i)
    · exact fun _ hl => hl
    intro _
    apply Meets.known
    intro r
    apply Meets.bind (Q := fun _ l => Accounts r i l ∧ Over l)
    · apply Meets.ask
      · exact fun rc l hl => ⟨nofun, nofun, nofun, fun _ _ => hl.2⟩
      · rintro rc l ⟨hl, hover⟩
        refine ⟨hl.still rfl rfl rfl (by simp [EofSent]), ?_⟩
        simpa [Over, polledIn] using hover
    intro rc
    apply Meets.ite
    · intro _
      apply Meets.bind (Q := fun _ l => Accounts r i l ∧ Over l)
      · apply Meets.ask
        · exact fun _ l _ => Plain.orderly trivial
        · rintro _ l ⟨hl, hover⟩
          refine ⟨hl.plain trivial, ?_⟩
          simpa [Over, polledIn] using hover
      intro _
      exact Meets.pure fun l hl => ⟨r, hl⟩
    · exact fun _ => Meets.pure fun l hl => ⟨r, hl.1⟩
  intro rc
  apply Meets.known
  intro r
  apply Meets.ite
  · intro _
    apply Meets.bind (ask_accounts .exitStatus fun _ => trivial)
    intro exitcode
    apply Meets.bind (ask_accounts .exitSignal fun _ => trivial)
    intro exitsignal
    exact conclude_meets i exitcode exitsignal
  · exact fun _ => conclude_meets i 127 _

theorem orderly_sent (h : Throughout Orderly l) : (sentOf l).length ≤ totsize := by
  induction l using List.reverseRecOn with
  | nil => exact Nat.zero_le _
  | append_singleton l e ih =>
    have hbefore := ih h.init
    rw [sentOf_concat, List.length_append]
    cases e with
    | channelWrite buf n =>
      obtain ⟨-, -, hlen⟩ := h.last.writes buf n rfl
      have htake := List.length_take_le' n.toNat buf
      simp only [sentIn]
      omega
    | _ => exact hbefore

/-- Whatever the channel answers, the echo test keeps to the order of its calls, never sends more
than it set out to send, gives up with 1 only, and succeeds only when as much came back as was sent,
up to a multiple of what an `int` wraps around. -/
theorem echo_orderly (sys : System σ) (n : ℕ) (s : σ) :
    Throughout Orderly (echo sys n s).log ∧ (sentOf (echo sys n s).log).length ≤ totsize ∧
    (∀ code, (echo sys n s).value = .value code →
      (receivedOf (echo sys n s).log).length % 2 ^ 32 = (sentOf (echo sys n s).log).length) ∧
    ∀ code, (echo sys n s).value = .left code → code = 1 := by
  have hmeets := @echo_meets _ sys n
  have horder := hmeets.log accounts_start s
  refine ⟨horder, orderly_sent horder, ?_, ?_⟩
  · intro code hv
    exact (hmeets.value accounts_start hv).mod_eq
  · intro code hv
    exact (hmeets.left accounts_start hv).1

/-! ## Environment and log -/

/-- Every call follows the relation. -/
structure Calls (sys : System σ) (I : σ → List Event → σ → Prop) : Prop where
  poll : ∀ pollout s, I s [.poll pollout (sys.poll pollout s).1.1 (sys.poll pollout s).1.2]
    (sys.poll pollout s).2
  channelRead : ∀ s, I s [.channelRead bufsize (sys.channelRead bufsize s).1.count
    (sys.channelRead bufsize s).1.bytes] (sys.channelRead bufsize s).2
  channelWrite : ∀ buf s, I s [.channelWrite buf (sys.channelWrite buf s).1.1]
    (sys.channelWrite buf s).2
  sendEof : ∀ s, I s [.sendEof (sys.sendEof s).1] (sys.sendEof s).2
  channelClose : ∀ s, I s [.channelClose (sys.channelClose s).1] (sys.channelClose s).2
  waitsocket : ∀ s, I s [.waitsocket (sys.waitsocket s).1] (sys.waitsocket s).2
  exitStatus : ∀ s, I s [.exitStatus (sys.exitStatus s).1] (sys.exitStatus s).2
  exitSignal : ∀ s, I s [.exitSignal (sys.exitSignal s).1] (sys.exitSignal s).2
  stderr : ∀ text s, I s [.stderr text] s

section Leads

variable {I : σ → List Event → σ → Prop} (hpath : Path I) (h : Calls sys I)
include hpath h

/-- A message, and on with `a`. -/
theorem note_leads {α : Type} (text : String) (a : α) :
    Leads I (do note (.stderr text); pure a : Echo σ α) :=
  Leads.bind hpath (Leads.ask (h.stderr text)) fun _ => Leads.pure hpath a

theorem fail_leads {α : Type} (text : String) : Leads I (fail text : Echo σ α) :=
  Leads.bind hpath (Leads.ask (h.stderr text)) fun _ => fun s => hpath.nil s

theorem readPart_leads (i : State) : Leads I (readPart sys i) := by
  apply Leads.bind hpath (Leads.ask h.channelRead)
  intro n
  apply Leads.ite (note_leads hpath h _ _)
  exact Leads.ite (fail_leads hpath h _) (note_leads hpath h _ _)

theorem written_leads (i : State) (n : ℕ) : Leads I (written i n : Echo σ State) := by
  apply Leads.bind hpath (Leads.ask (h.stderr _))
  intro _
  apply Leads.ite
  · apply Leads.bind hpath (Leads.ask (h.stderr _))
    exact fun _ => note_leads hpath h _ _
  · exact note_leads hpath h _ _

theorem writeSome_leads (i : State) : Leads I (writeSome sys i) := by
  apply Leads.bind hpath (Leads.ask (h.channelWrite _))
  intro n
  apply Leads.ite (note_leads hpath h _ _)
  exact Leads.ite (fail_leads hpath h _) (written_leads hpath h i _)

theorem sendEof_leads (i : State) : Leads I (sendEof sys i) := by
  apply Leads.bind hpath (Leads.ask h.sendEof)
  intro rc
  apply Leads.ite (note_leads hpath h _ _)
  exact Leads.ite (fail_leads hpath h _) (note_leads hpath h _ _)

theorem turn_leads (i : State) : Leads I (turn sys i) := by
  apply Leads.bind hpath (Leads.ask (h.poll _))
  rintro ⟨rc, revents⟩
  apply Leads.ite (Leads.pure hpath _)
  apply Leads.bind hpath (Leads.ite (readPart_leads hpath h i) (Leads.pure hpath i))
  intro i
  have hwrite : Leads I (writePart sys i) :=
    Leads.ite (writeSome_leads hpath h i) (sendEof_leads hpath h i)
  apply Leads.bind hpath (Leads.ite hwrite (Leads.pure hpath i))
  intro i
  exact Leads.ite (Leads.pure hpath _) (Leads.pure hpath _)

theorem conclude_leads (i : State) (exitcode : Int) (exitsignal : Option String) :
    Leads I (conclude i exitcode exitsignal : Echo σ Int) := by
  apply Leads.bind hpath
  · cases exitsignal with
    | some exitsignal => exact Leads.ask (h.stderr _)
    | none => exact Leads.pure hpath ()
  intro _
  apply Leads.bind hpath (Leads.ask (h.stderr _))
  intro _
  exact Leads.ite (fail_leads hpath h _) (Leads.pure hpath _)

theorem echo_leads (n : ℕ) : Leads I (echo sys n) := by
  apply Leads.bind hpath (Leads.turns hpath (turn_leads hpath h) n start)
  intro i
  apply Leads.bind hpath
  · apply Leads.turns hpath
    intro _
    apply Leads.bind hpath (Leads.ask h.channelClose)
    intro rc
    apply Leads.ite
    · exact Leads.bind hpath (Leads.ask h.waitsocket) fun _ => Leads.pure hpath _
    · exact Leads.pure hpath _
  intro rc
  apply Leads.ite
  · apply Leads.bind hpath (Leads.ask h.exitStatus)
    intro exitcode
    apply Leads.bind hpath (Leads.ask h.exitSignal)
    exact fun exitsignal => conclude_leads hpath h i exitcode exitsignal
  · exact conclude_leads hpath h i 127 _

end Leads

/-! ## A channel that echoes -/

/-- What was sent waits in a pipe until it is read, and no other call changes it. -/
structure Echoes (sys : System σ) (pipe : σ → List Byte) : Prop where
  poll : ∀ pollout s, pipe (sys.poll pollout s).2 = pipe s
  channelRead : ∀ s,
    (sys.channelRead bufsize s).1.bytes ++ pipe (sys.channelRead bufsize s).2 = pipe s
  channelWrite : ∀ buf s, pipe (sys.channelWrite buf s).2 =
    pipe s ++ buf.take (sys.channelWrite buf s).1.1.toNat
  sendEof : ∀ s, pipe (sys.sendEof s).2 = pipe s
  channelClose : ∀ s, pipe (sys.channelClose s).2 = pipe s
  waitsocket : ∀ s, pipe (sys.waitsocket s).2 = pipe s
  exitStatus : ∀ s, pipe (sys.exitStatus s).2 = pipe s
  exitSignal : ∀ s, pipe (sys.exitSignal s).2 = pipe s

/-- What waited and what was sent is what was received and what waits, and at no moment was more
received. -/
def Piped (pipe : σ → List Byte) (s : σ) (l : List Event) (t : σ) : Prop :=
  pipe s ++ sentOf l = receivedOf l ++ pipe t ∧
    ∀ moment, moment <+: l → receivedOf moment <+: pipe s ++ sentOf moment

variable {pipe : σ → List Byte}

theorem sentOf_append (l l' : List Event) : sentOf (l ++ l') = sentOf l ++ sentOf l' :=
  List.flatMap_append

theorem receivedOf_append (l l' : List Event) :
    receivedOf (l ++ l') = receivedOf l ++ receivedOf l' :=
  List.flatMap_append

theorem piped_path (pipe : σ → List Byte) : Path (Piped pipe) where
  nil s := by
    refine ⟨by simp [sentOf, receivedOf], ?_⟩
    intro moment hm
    rw [List.prefix_nil.mp hm]
    exact List.nil_prefix
  append := by
    rintro s t u l l' ⟨hl, hfirst⟩ ⟨hl', hsecond⟩
    refine ⟨?_, ?_⟩
    · rw [sentOf_append, receivedOf_append, ← List.append_assoc, hl, List.append_assoc, hl',
        List.append_assoc]
    · intro moment hm
      rcases List.prefix_or_prefix_of_prefix hm (List.prefix_append l l') with hm' | ⟨rest, rfl⟩
      · exact hfirst moment hm'
      · have hrest : rest <+: l' := (List.prefix_append_right_inj l).mp hm
        rw [sentOf_append, receivedOf_append, ← List.append_assoc, hl, List.append_assoc]
        exact (List.prefix_append_right_inj _).mpr (hsecond rest hrest)

/-- One call. -/
theorem piped_one {s t : σ} (h : pipe s ++ sentIn e = receivedIn e ++ pipe t) :
    Piped pipe s [e] t := by
  have hsent : sentOf [e] = sentIn e := by simp [sentOf]
  have hreceived : receivedOf [e] = receivedIn e := by simp [receivedOf]
  refine ⟨by rw [hsent, hreceived, h], ?_⟩
  intro moment hm
  rcases List.prefix_cons_iff.mp hm with rfl | ⟨rest, rfl, hrest⟩
  · exact List.nil_prefix
  · rw [List.prefix_nil.mp hrest, hsent, hreceived, h]
    exact List.prefix_append _ _

theorem Echoes.calls (h : Echoes sys pipe) : Calls sys (Piped pipe) where
  poll pollout s := piped_one (by simp [sentIn, receivedIn, h.poll])
  channelRead s := piped_one (by simp [sentIn, receivedIn, h.channelRead])
  channelWrite buf s := piped_one (by simp [sentIn, receivedIn, h.channelWrite])
  sendEof s := piped_one (by simp [sentIn, receivedIn, h.sendEof])
  channelClose s := piped_one (by simp [sentIn, receivedIn, h.channelClose])
  waitsocket s := piped_one (by simp [sentIn, receivedIn, h.waitsocket])
  exitStatus s := piped_one (by simp [sentIn, receivedIn, h.exitStatus])
  exitSignal s := piped_one (by simp [sentIn, receivedIn, h.exitSignal])
  stderr text s := piped_one (by simp [sentIn, receivedIn])

theorem Piped.back {s t : σ} (h : Piped pipe s l t) (hs : pipe s = []) (moment : List Event)
    (hm : moment <+: l) : receivedOf moment <+: sentOf moment := by
  have hback := h.2 moment hm
  rwa [hs, List.nil_append] at hback

theorem Piped.all {s t : σ} (h : Piped pipe s l t) (hs : pipe s = []) (hbalanced : Balanced l) :
    receivedOf l = sentOf l ∧ pipe t = [] := by
  have hback := h.back hs l (List.prefix_refl l)
  have hall := hback.eq_of_length (hbalanced.eq_of_le hback.length_le)
  have hend := h.1
  rw [hs, List.nil_append, hall] at hend
  exact ⟨hall, List.self_eq_append_right.mp hend⟩

/-- While only letters have come back, there are only letters in the buffer. -/
theorem buffer_letters (h : ∀ b ∈ receivedOf l, b = letterA) : ∀ b ∈ bufferOf l, b = letterA := by
  induction l using List.reverseRecOn with
  | nil => exact fun b hb => List.eq_of_mem_replicate hb
  | append_singleton l e ih =>
    rw [receivedOf_concat] at h
    rw [bufferOf_concat, overlay]
    intro b hb
    rcases List.mem_append.mp hb with hb | hb
    · exact h b (List.mem_append_right _ hb)
    · exact ih (fun c hc => h c (List.mem_append_left _ hc)) b (List.mem_of_mem_drop hb)

/-- Where nothing but what was sent comes back, all that is sent are letters. -/
theorem sent_letters (horder : Throughout Orderly l)
    (hback : ∀ moment, moment <+: l → receivedOf moment <+: sentOf moment) :
    ∀ b ∈ sentOf l, b = letterA := by
  induction l using List.reverseRecOn with
  | nil => simp [sentOf]
  | append_singleton l e ih =>
    have hbefore := ih horder.init fun moment hm =>
      hback moment (hm.trans (List.prefix_append l [e]))
    have hreceived : ∀ b ∈ receivedOf l, b = letterA := fun b hb =>
      hbefore b ((hback l (List.prefix_append l [e])).subset hb)
    intro b hb
    rw [sentOf_concat] at hb
    rcases List.mem_append.mp hb with hb | hb
    · exact hbefore b hb
    · cases e with
      | channelWrite buf n =>
        obtain ⟨-, rfl, -⟩ := horder.last.writes buf n rfl
        exact buffer_letters hreceived b (List.mem_of_mem_take (List.mem_of_mem_take hb))
      | _ => cases hb

/-- Over a channel that echoes, the test sends letters only, has at every moment a first part of
them back, and all of them if it succeeds. -/
theorem echo_returns (sys : System σ) (pipe : σ → List Byte) (h : Echoes sys pipe) (n : ℕ) (s : σ)
    (hs : pipe s = []) :
    (∀ moment, moment <+: (echo sys n s).log → receivedOf moment <+: sentOf moment) ∧
    (∀ b ∈ sentOf (echo sys n s).log, b = letterA) ∧
    ∀ code, (echo sys n s).value = .value code →
      receivedOf (echo sys n s).log = sentOf (echo sys n s).log ∧ pipe (echo sys n s).env = [] := by
  have hmeets := @echo_meets _ sys n
  have hpiped := echo_leads (piped_path pipe) h.calls n s
  refine ⟨hpiped.back hs, sent_letters (hmeets.log accounts_start s) (hpiped.back hs), ?_⟩
  intro code hv
  exact hpiped.all hs (hmeets.value accounts_start hv)

theorem all_fits (buf : List Byte) : (buf.length : Int) ≤ buf.length := Int.le_refl _

/-- `cat` at the other end of a channel that holds everything: what waits, and whether it has seen
the EOF. -/
def cat : System (List Byte × Bool) where
  poll pollout s := ((1, ⟨s.1 ≠ [], pollout, s.2 ∧ s.1 = []⟩), s)
  channelRead len s :=
    if h : 0 < (s.1.take len).length then
      (.stored (s.1.take len) h (List.length_take_le len s.1), s.1.drop len, s.2)
    else
      (.failed libssh2ErrorEagain RelayLoop.libssh2ErrorEagain_nonpos, s)
  channelWrite buf s := (⟨buf.length, all_fits buf⟩, s.1 ++ buf, s.2)
  sendEof s := (0, s.1, true)
  channelClose s := (0, s)
  waitsocket s := (1, s)
  exitStatus s := (0, s)
  exitSignal s := (none, s)

theorem cat_echoes : Echoes cat Prod.fst where
  poll _ _ := rfl
  channelRead s := by
    unfold cat
    dsimp only
    split
    · exact List.take_append_drop bufsize s.1
    · rfl
  channelWrite buf s := by simp [cat]
  sendEof _ := rfl
  channelClose _ := rfl
  waitsocket _ := rfl
  exitStatus _ := rfl
  exitSignal _ := rfl

/-- Enough turns for all of it. -/
theorem echo_returns_cat :
    (∀ moment, moment <+: (echo cat 100 ([], false)).log → receivedOf moment <+: sentOf moment) ∧
    (∀ b ∈ sentOf (echo cat 100 ([], false)).log, b = letterA) ∧
    ∀ code, (echo cat 100 ([], false)).value = .value code →
      receivedOf (echo cat 100 ([], false)).log = sentOf (echo cat 100 ([], false)).log ∧
        (echo cat 100 ([], false)).env.1 = [] :=
  echo_returns cat Prod.fst cat_echoes 100 ([], false) rfl

end CloudSsh.EchoRuns
