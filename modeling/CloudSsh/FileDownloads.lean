import CloudSsh.RelayLoop
import CloudSsh.BufferedTransfers

/-!
# Downloads

The loops that receive: `scp.c`, `scp_nonblock.c`, `sftp.c`, `sftp_nonblock.c`, the first half of
`sftp_RW_nonblock.c`, and `ssh2_exec.c`. They hand what they read to the output, or to a file, and
none looks at what becomes of it there.
-/
namespace CloudSsh.FileDownloads
open EnvironmentPrograms InterruptedPrograms BufferedTransfers
open RelayLoop (Byte ReadResult libssh2ErrorEagain)

inductive Sink where
  | stdout
  | stderr
  | tempstorage
  deriving DecidableEq

structure System (σ : Type) where
  /-- `libssh2_channel_read` or `libssh2_sftp_read`. -/
  read : (len : ℕ) → σ → ReadResult len × σ
  out : Sink → List Byte → σ → σ
  waitsocket : σ → Int × σ
  /-- `select` on the socket in `sftp_RW_nonblock.c`. -/
  select : σ → Int × σ
  channelClose : σ → Int × σ
  exitStatus : σ → Int × σ
  exitSignal : σ → Option String × σ

inductive Event where
  | read (size : ℕ) (rc : Int) (mem : List Byte)
  | out (sink : Sink) (mem : List Byte)
  | waitsocket (rc : Int)
  | select (rc : Int)
  | channelClose (rc : Int)
  | exitStatus (exitcode : Int)
  | exitSignal (signal : Option String)
  | stderr (text : String)
  /-- `EXIT: %d bytecount: %d` -/
  | exit (exitcode : Int) (bytecount : Int32)

/-- The loops are not left but by `break`. -/
abbrev Download (σ α : Type) := Routine σ Event Empty α

variable {σ : Type} (sys : System σ)

def read (size : ℕ) : Download σ (ReadResult size) :=
  ask (sys.read size) fun r => .read size r.count r.bytes

def out (sink : Sink) (mem : List Byte) : Download σ Unit :=
  ask (fun s => ((), sys.out sink mem s)) fun _ => .out sink mem

def waitsocket : Download σ Int := ask sys.waitsocket .waitsocket

def wouldBlock {len : ℕ} (r : ReadResult len) : Bool := r.count = libssh2ErrorEagain

/-- `sizeof(mem)`, or what is missing of the file if that is less. -/
def amount (chunk : ℕ) (st_size : Int) (got : ℕ) : ℕ :=
  if st_size - got < chunk then (st_size - got).toNat else chunk

/-- `scp.c` -/
def scp (st_size : Int) (n : ℕ) : Download σ Unit :=
  turns (fun got : ℕ =>
    if got < st_size then do
      let r ← read sys (amount 1024 st_size got)
      if r.count > 0 then
        out sys .stdout r.bytes
        pure (.inl (got + r.count.toNat))
      else if r.count < 0 then
        note (.stderr s!"libssh2_channel_read() failed: {r.count}\n")
        pure (.inr ())
      else
        pure (.inl (got + r.count.toNat))
    else
      pure (.inr ())) n 0

/-- An inner loop: `do .. while (rc > 0)` around a read of `size got` bytes, each handed on. `add`
counts what was read. It yields the count, and the last `rc`. -/
def drain {γ : Type} (size : γ → ℕ) (add : γ → Int → γ)
    (hand : {len : ℕ} → ReadResult len → Download σ Unit) (n : ℕ) (got : γ) :
    Download σ (γ × Int) :=
  turns (fun got => do
    let r ← read sys (size got)
    hand r
    if r.count > 0 then
      pure (.inl (add got r.count))
    else
      pure (.inr (got, r.count))) n got

def toStdout {len : ℕ} (r : ReadResult len) : Download σ Unit :=
  if r.count > 0 then out sys .stdout r.bytes else pure ()

/-- `scp_nonblock.c` -/
def scpNonblock (st_size : Int) (n : ℕ) : Download σ Unit :=
  turns (fun got : ℕ =>
    if got < st_size then do
      let (got, rc) ← drain sys (amount (1024 * 24) st_size) (fun got rc => got + rc.toNat)
        (toStdout sys) n got
      if rc = libssh2ErrorEagain ∧ got < st_size then
        let _ ← waitsocket sys
        pure (.inl got)
      else
        pure (.inr ())
    else
      pure (.inr ())) n 0

/-- `sftp.c` -/
def sftp (n : ℕ) : Download σ Unit :=
  turns (fun _ => do
    note (.stderr "libssh2_sftp_read()!\n")
    let r ← read sys 1024
    if r.count > 0 then
      out sys .stdout r.bytes
      pure (.inl ())
    else
      pure (.inr ())) n ()

/-- `while ((rc = libssh2_sftp_read(..)) == LIBSSH2_ERROR_EAGAIN) waitsocket(..);` -/
def readWaiting (size n : ℕ) : Download σ (ReadResult size) :=
  retry wouldBlock (sys.read size) (fun r => .read size r.count r.bytes)
    sys.waitsocket .waitsocket n

/-- `sftp_nonblock.c` -/
def sftpNonblock (n : ℕ) : Download σ Unit :=
  turns (fun _ => do
    let r ← readWaiting sys (1024 * 24) n
    if r.count > 0 then
      out sys .stdout r.bytes
      pure (.inl ())
    else
      pure (.inr ())) n ()

def toStorage {len : ℕ} (r : ReadResult len) : Download σ Unit := do
  note (.stderr s!"libssh2_sftp_read returned {r.count}\n")
  if r.count > 0 then
    out sys .stderr r.bytes
    out sys .tempstorage r.bytes
  else
    pure ()

/-- The download in `sftp_RW_nonblock.c`. -/
def rwDownload (n : ℕ) : Download σ Unit :=
  turns (fun _ => do
    let (_, rc) ← drain sys (fun _ => 1000) (fun _ _ => ()) (toStorage sys) n ()
    if rc ≠ libssh2ErrorEagain then
      pure (.inr ())
    else
      let rc ← ask sys.select .select
      if rc ≤ 0 then
        note (.stderr s!"SFTP download timed out: {rc}\n")
        pure (.inr ())
      else
        pure (.inl ())) n ()

def toStderr {len : ℕ} (r : ReadResult len) : Download σ Unit :=
  if r.count > 0 then do
    note (.stderr "We read:\n")
    out sys .stderr r.bytes
    note (.stderr "\n")
  else if r.count ≠ libssh2ErrorEagain then
    note (.stderr s!"libssh2_channel_read returned {r.count}\n")
  else
    pure ()

/-- The output of the command in `ssh2_exec.c`. It yields `bytecount`, an `int`
that wraps around. -/
def execOutput (n : ℕ) : Download σ Int32 :=
  turns (fun bytecount => do
    let (bytecount, rc) ← drain sys (fun _ => 0x4000)
      (fun bytecount rc => bytecount + Int32.ofInt rc)
      (toStderr sys) n bytecount
    if rc = libssh2ErrorEagain then
      let _ ← waitsocket sys
      pure (.inl bytecount)
    else
      pure (.inr bytecount)) n 0

def report (bytecount : Int32) (exitcode : Int) (exitsignal : Option String) : Download σ Unit :=
  match exitsignal with
  | some exitsignal => note (.stderr s!"\nGot signal: {exitsignal}\n")
  | none => note (.exit exitcode bytecount)

/-- `ssh2_exec.c`, once the command runs. `exitsignal` starts as `none`, which is not the null
pointer. -/
def exec (n : ℕ) : Download σ Unit := do
  let bytecount ← execOutput sys n
  let rc ← retry (fun rc => rc = libssh2ErrorEagain) sys.channelClose .channelClose sys.waitsocket
    .waitsocket n
  if rc = 0 then
    let exitcode ← ask sys.exitStatus .exitStatus
    let exitsignal ← ask sys.exitSignal .exitSignal
    report bytecount exitcode exitsignal
  else
    report bytecount 127 (some "none")

/-! ## What was read, and what was handed on -/

def receivedIn : Event → List Byte
  | .read _ _ mem => mem
  | _ => []

def receivedOf (l : List Event) : List Byte := l.flatMap receivedIn

def toSink (k : Sink) : Reading Event Byte where
  taken := receivedIn
  offer
    | .out sink mem => if sink = k then some (mem, mem.length) else none
    | _ => none
  taken_nil e o h := by cases e <;> first | rfl | cases h

@[simp] theorem receivedOf_concat (l : List Event) (e : Event) :
    receivedOf (l ++ [e]) = receivedOf l ++ receivedIn e := by simp [receivedOf]

def lastIn (rc : Option Int) : Event → Option Int
  | .read _ rc _ => some rc
  | _ => rc

/-- What the last read returned. -/
def lastRead (l : List Event) : Option Int := l.foldl lastIn none

@[simp] theorem lastRead_concat (l : List Event) (e : Event) :
    lastRead (l ++ [e]) = lastIn (lastRead l) e := by simp [lastRead]

/-- Every sink is offered what was read and not handed to it yet; more is read only when nothing
waits, as much as is wanted behind what was received; and a count that is shown is what an `int`
holds of the right one. -/
structure Faithful (sinks : List Sink) (want : ℕ → ℕ) (before : List Event) (e : Event) : Prop where
  offers : ∀ k ∈ sinks, (toSink k).InOrder before e
  asks : ∀ size rc mem, e = .read size rc mem → size = want (receivedOf before).length ∧
    mem.length ≤ size ∧ ∀ k ∈ sinks, (toSink k).Pending [] before
  counts : ∀ exitcode bytecount, e = .exit exitcode bytecount →
    bytecount = Int32.ofNat (receivedOf before).length

/-- `got` bytes were received, the last read returned `rc`, and `p k` waits for the sink `k`. -/
structure Waiting (sinks : List Sink) (got : ℕ) (rc : Option Int) (p : Sink → List Byte)
    (l : List Event) : Prop where
  got : (receivedOf l).length = got
  last : lastRead l = rc
  pending : ∀ k ∈ sinks, (toSink k).Pending (p k) l

/-- Nothing waits. -/
def Idle (sinks : List Sink) (got : ℕ) (l : List Event) : Prop :=
  ∃ rc, Waiting sinks got rc (fun _ => []) l

theorem idle_nil (sinks : List Sink) : Idle sinks 0 [] :=
  ⟨none, rfl, rfl, fun _ _ => Reading.pending_nil⟩

variable {sys} {sinks : List Sink} {want : ℕ → ℕ} {got : ℕ} {rc : Option Int} {p : Sink → List Byte}
variable {l : List Event} {e : Event} {E : Empty → List Event → Prop}

def Quiet : Event → Prop
  | .read _ _ _ | .out _ _ | .exit _ _ => False
  | _ => True

theorem Quiet.nothing (h : Quiet e) (k : Sink) :
    (toSink k).offer e = none ∧ receivedIn e = [] ∧ ∀ rc, lastIn rc e = rc := by
  cases e with
  | read size rc mem => exact h.elim
  | out sink mem => exact h.elim
  | exit exitcode bytecount => exact h.elim
  | _ => exact ⟨rfl, rfl, fun _ => rfl⟩

theorem Waiting.quiet (h : Waiting sinks got rc p l) (he : Quiet e) :
    Faithful sinks want l e ∧ Waiting sinks got rc p (l ++ [e]) := by
  refine ⟨⟨fun k _ => Reading.inOrder_of_none (he.nothing k).1, ?_, ?_⟩, ?_, ?_, ?_⟩
  · rintro size rc mem rfl
    exact he.elim
  · rintro exitcode bytecount rfl
    exact he.elim
  · rw [receivedOf_concat, (he.nothing .stdout).2.1, List.append_nil, h.got]
  · rw [lastRead_concat, (he.nothing .stdout).2.2, h.last]
  · exact fun k hk => (h.pending k hk).quiet (he.nothing k).1 (he.nothing k).2.1

theorem ask_waiting {α : Type} {answer : σ → α × σ} (event : α → Event) (h : ∀ a, Quiet (event a)) :
    Meets (Faithful sinks want) (Waiting sinks got rc p) (ask answer event)
      (fun _ => Waiting sinks got rc p) E :=
  Meets.ask (fun a _ hl => (hl.quiet (h a)).1) fun a _ hl =>
    (@Waiting.quiet _ want _ _ _ _ _ hl (h a)).2

theorem note_waiting (h : Quiet e) : Meets (Faithful sinks want) (Waiting sinks got rc p)
    (note e : Download σ Unit) (fun _ => Waiting sinks got rc p) E := ask_waiting _ fun _ => h

theorem ask_idle {α : Type} {answer : σ → α × σ} (event : α → Event) (h : ∀ a, Quiet (event a)) :
    Meets (Faithful sinks want) (Idle sinks got) (ask answer event)
      (fun _ => Idle sinks got) E := by
  apply Meets.known
  intro rc
  apply (ask_waiting event h).post
  exact fun _ _ hl => ⟨rc, hl⟩

theorem note_idle (h : Quiet e) : Meets (Faithful sinks want) (Idle sinks got)
    (note e : Download σ Unit) (fun _ => Idle sinks got) E := ask_idle _ fun _ => h

/-- What is read waits for every sink. -/
theorem read_waiting {size : ℕ} (hsize : size = want got) :
    Meets (Faithful sinks want) (Idle sinks got) (read sys size)
      (fun r => Waiting sinks (got + r.bytes.length) (some r.count) fun _ => r.bytes) E := by
  subst hsize
  apply Meets.ask
  · rintro r l ⟨rc, h⟩
    refine ⟨fun k _ => Reading.inOrder_of_none rfl, ?_, ?_⟩
    · intro size rc mem he
      cases he
      rw [h.got]
      exact ⟨rfl, r.bytes_fit, h.pending⟩
    · intro exitcode bytecount he
      cases he
  · rintro r l ⟨rc, h⟩
    refine ⟨?_, ?_, ?_⟩
    · rw [receivedOf_concat, List.length_append, h.got]
      rfl
    · rw [lastRead_concat]
      rfl
    · intro k hk
      have htake := (h.pending k hk).take (e := .read (want got) r.count r.bytes) rfl
      rwa [List.nil_append] at htake

/-- What is handed to a sink no longer waits for it. -/
theorem out_waiting {k : Sink} {mem : List Byte} (hmem : p k = mem) :
    Meets (Faithful sinks want) (Waiting sinks got rc p) (out sys k mem)
      (fun _ => Waiting sinks got rc (Function.update p k [])) E := by
  apply Meets.ask
  · intro _ l h
    refine ⟨?_, ?_, ?_⟩
    · intro j hj
      by_cases hjk : k = j
      · subst hjk
        apply (h.pending k hj).inOrder (k := mem.length)
        simp [toSink, hmem]
      · apply Reading.inOrder_of_none
        simp [toSink, hjk]
    · intro size rc mem he
      cases he
    · intro exitcode bytecount he
      cases he
  · intro _ l h
    refine ⟨?_, ?_, ?_⟩
    · rw [receivedOf_concat]
      simpa [receivedIn] using h.got
    · rw [lastRead_concat]
      exact h.last
    · intro j hj
      by_cases hjk : k = j
      · subst hjk
        have haccept := (h.pending k hj).accept (e := .out k mem) (k := mem.length)
          (by simp [toSink, hmem])
        rw [Function.update_self]
        rwa [hmem, List.drop_length] at haccept
      · rw [Function.update_of_ne (Ne.symm hjk)]
        apply (h.pending j hj).quiet
        · simp [toSink, hjk]
        · rfl

theorem Waiting.congr {q : Sink → List Byte} (h : Waiting sinks got rc p l)
    (hpq : ∀ k ∈ sinks, p k = q k) :
    Waiting sinks got rc q l := by
  refine ⟨h.got, h.last, ?_⟩
  intro k hk
  rw [← hpq k hk]
  exact h.pending k hk

/-- To hand to the only sink all that waits for it. -/
theorem out_all {k : Sink} {mem : List Byte} :
    Meets (Faithful [k] want) (Waiting [k] got rc fun _ => mem) (out sys k mem)
      (fun _ => Waiting [k] got rc fun _ => []) E := by
  apply (out_waiting rfl).post
  intro _ l h
  apply h.congr
  intro j hj
  rw [List.mem_singleton.mp hj, Function.update_self]

/-! ## The inner loops -/

/-- `hand` hands all that was read to every sink. -/
def Hands (sinks : List Sink) (want : ℕ → ℕ) (E : Empty → List Event → Prop)
    (hand : {len : ℕ} → ReadResult len → Download σ Unit) : Prop :=
  ∀ {len} (r : ReadResult len) got rc, Meets (Faithful sinks want)
    (Waiting sinks got rc fun _ => r.bytes) (hand r) (fun _ => Waiting sinks got rc fun _ => []) E

/-- `count` says what a counter holds, and a loop that counts so asks for what is wanted. -/
structure Counts {γ : Type} (want : ℕ → ℕ) (count : ℕ → γ) (size : γ → ℕ)
    (add : γ → Int → γ) : Prop where
  size : ∀ got, size (count got) = want got
  add : ∀ {len} (r : ReadResult len) got, 0 < r.count →
    add (count got) r.count = count (got + r.bytes.length)

theorem counts_bytes (want : ℕ → ℕ) : Counts want id want fun got rc => got + rc.toNat where
  size _ := rfl
  add r got _ := by
    rw [r.count_toNat]
    rfl

theorem counts_int (size : ℕ) :
    Counts (fun _ => size) Int32.ofNat (fun _ => size)
      fun bytecount rc => bytecount + Int32.ofInt rc where
  size _ := rfl
  add r got hr := by rw [ReadResult.int32_count (Int.le_of_lt hr), Int32.ofNat_add]

theorem counts_nothing (size : ℕ) :
    Counts (fun _ => size) (fun _ => ()) (fun _ => size) fun _ _ => () :=
  ⟨fun _ => rfl, fun _ _ _ => rfl⟩

variable {γ : Type} {count : ℕ → γ} {size : γ → ℕ} {add : γ → Int → γ}

theorem drain_meets {hand : {len : ℕ} → ReadResult len → Download σ Unit}
    (hcount : Counts want count size add) (h : Hands sinks want E hand) (n : ℕ) :
    Meets (Faithful sinks want) (Idle sinks got) (drain sys size add hand n (count got))
      (fun r l => r.2 ≤ 0 ∧ ∃ got, r.1 = count got ∧
        Waiting sinks got (some r.2) (fun _ => []) l) E := by
  apply Meets.turns (L := fun i l => ∃ got, i = count got ∧ Idle sinks got l)
  · exact fun _ hl => ⟨got, rfl, hl⟩
  intro i
  apply Meets.given
  rintro got rfl
  apply Meets.bind (read_waiting (hcount.size got))
  intro r
  apply Meets.bind (h r _ _)
  intro _
  apply Meets.ite
  · intro hsome
    apply Meets.pure
    intro l hl
    exact ⟨_, hcount.add r got hsome, _, hl⟩
  · intro hnone
    apply Meets.pure
    intro l hl
    rw [ReadResult.bytes_eq_nil hnone] at hl
    exact ⟨Int.not_lt.mp hnone, got, rfl, hl⟩

theorem Waiting.none {len : ℕ} {r : ReadResult len} (hr : ¬ r.count > 0)
    (h : Waiting sinks got rc (fun _ => r.bytes) l) : Waiting sinks got rc (fun _ => []) l :=
  h.congr fun _ _ => ReadResult.bytes_eq_nil hr

theorem toStdout_hands : Hands [.stdout] want E (toStdout sys) := by
  intro len r got rc
  apply Meets.ite
  · exact fun _ => out_all
  · exact fun hr => Meets.pure fun l hl => hl.none hr

theorem toStderr_hands : Hands [.stderr] want E (toStderr sys) := by
  intro len r got rc
  apply Meets.ite
  · intro _
    apply Meets.bind (note_waiting (e := .stderr _) trivial)
    intro _
    apply Meets.bind out_all
    intro _
    exact note_waiting (e := .stderr _) trivial
  · intro hr
    apply Meets.pre _ fun l hl => Waiting.none hr hl
    apply Meets.ite
    · exact fun _ => note_waiting (e := .stderr _) trivial
    · exact fun _ => Meets.pure fun l hl => hl

theorem toStorage_hands : Hands [.stderr, .tempstorage] want E (toStorage sys) := by
  intro len r got rc
  apply Meets.bind (note_waiting (e := .stderr _) trivial)
  intro _
  apply Meets.ite
  · intro _
    apply Meets.bind (out_waiting rfl)
    intro _
    apply (out_waiting (by simp)).post
    intro _ l hl
    apply hl.congr
    intro k hk
    rw [List.mem_cons, List.mem_singleton] at hk
    rcases hk with rfl | rfl <;> simp
  · exact fun hr => Meets.pure fun l hl => hl.none hr

end CloudSsh.FileDownloads
