import CloudSsh.RelayLoop
import CloudSsh.BufferedTransfers

/-!
# Uploads of a file

The loops that send a local file: `scp_write.c`, `scp_write_nonblock.c`, `sftp_write.c`,
`sftp_append.c`, `sftp_write_nonblock.c`, `sftp_write_sliding.c` and the second half of
`sftp_RW_nonblock.c`. The file, the remote side and the socket answer as they like, within the
types of their results.
-/
namespace CloudSsh.FileUploads
open EnvironmentPrograms InterruptedPrograms BufferedTransfers
open RelayLoop (Byte libssh2ErrorEagain)

structure System (σ : Type) where
  /-- The bytes that `fread` stores. There are none at the end of the file and after an error. -/
  fread : (size : ℕ) → σ → {mem : List Byte // mem.length ≤ size} × σ
  write : (buf : List Byte) → σ → Accepted buf.length × σ
  waitsocket : σ → Int × σ
  /-- `select` on the socket in `sftp_RW_nonblock.c`. -/
  select : σ → Int × σ
  /-- What `libssh2_sftp_fstat_ex` returns, and the size of the remote file. -/
  fstat : σ → (Int × ℕ) × σ

inductive Event where
  | fread (size : ℕ) (mem : List Byte)
  | write (buf : List Byte) (rc : Int)
  | waitsocket (rc : Int)
  | select (rc : Int)
  | fstat (rc : Int) (filesize : ℕ)
  | seek (offset : ℕ)
  | stderr (text : String)
  deriving DecidableEq

/-- `goto shutdown` is the only way to leave. -/
abbrev Upload (σ α : Type) := Routine σ Event Unit α

variable {σ : Type} (sys : System σ)

def fread (size : ℕ) : Upload σ {mem : List Byte // mem.length ≤ size} :=
  ask (sys.fread size) fun mem => .fread size mem

/-- `libssh2_channel_write` or `libssh2_sftp_write`. -/
def write (buf : List Byte) : Upload σ (Accepted buf.length) :=
  ask (sys.write buf) fun rc => .write buf rc

def waitsocket : Upload σ Int := ask sys.waitsocket .waitsocket

def wouldBlock {len : ℕ} (rc : Accepted len) : Bool := rc.1 = libssh2ErrorEagain

/-- `while ((rc = write(..)) == LIBSSH2_ERROR_EAGAIN) waitsocket(..);` -/
def writeWaiting (n : ℕ) (buf : List Byte) : Upload σ (Accepted buf.length) :=
  retry wouldBlock (sys.write buf) (fun rc => .write buf rc) sys.waitsocket .waitsocket n

/-- The variables of the inner loops: where the rest of the chunk starts, and its length. -/
structure Cursor where
  ptr : ℕ
  nread : ℕ

/-- The inner `do .. while (nread)`. It yields `nread` and the last `rc`. -/
def writeChunk (write : (buf : List Byte) → Upload σ (Accepted buf.length))
    (onError : Int → Upload σ Unit) (n : ℕ) (mem : List Byte) : Upload σ (ℕ × Int) :=
  turns (fun c : Cursor => do
    let rc ← write ((mem.drop c.ptr).take c.nread)
    if rc.1 < 0 then
      onError rc
      pure (.inr (c.nread, rc.1))
    else if c.nread - rc.1.toNat ≠ 0 then
      pure (.inl ⟨c.ptr + rc.1.toNat, c.nread - rc.1.toNat⟩)
    else
      pure (.inr (0, rc.1))) n ⟨0, mem.length⟩

/-- The outer loop: a chunk of the file, its upload, and the test whether to go on. `total` is what
has been read so far; only some of the programs look at it. -/
def uploadLoop (size : ℕ) (chunk : ℕ → List Byte → Upload σ (ℕ × Int)) (goOn : ℕ × Int → Bool)
    (n : ℕ) : Upload σ Unit :=
  turns (fun total => do
    let mem ← fread sys size
    if mem.1 = [] then
      pure (.inr ())
    else
      let r ← chunk (total + mem.1.length) mem
      if goOn r then pure (.inl (total + mem.1.length)) else pure (.inr ())) n 0

def quietly (_ : Int) : Upload σ Unit := pure ()

/-- `scp_write.c`, whose outer loop is `while (1)`. -/
def scpWrite (n : ℕ) : Upload σ Unit :=
  uploadLoop sys 1024
    (fun _ => writeChunk (write sys) (fun rc => note (.stderr s!"ERROR {rc}\n")) n)
      (fun _ => true) n

/-- `sftp_write.c`, whose outer loop is `while (rc > 0)`. -/
def sftpWrite (n : ℕ) : Upload σ Unit :=
  uploadLoop sys (1024 * 100) (fun _ => writeChunk (write sys) quietly n) (fun r => r.2 > 0) n

/-- `sftp_append.c` moves to the end of the remote file before. -/
def sftpAppend (n : ℕ) : Upload σ Unit := do
  let (rc, filesize) ← ask sys.fstat fun r => .fstat r.1 r.2
  if rc < 0 then
    note (.stderr "libssh2_sftp_fstat_ex failed\n")
    leave ()
  else
    note (.seek filesize)
    note (.stderr s!"Did a seek to position {filesize}\n")
    note (.stderr "libssh2_sftp_open() a handle for APPEND\n")
    note (.stderr "libssh2_sftp_open() is done, now send data!\n")
    sftpWrite sys n

def sftpWriteNonblock (n : ℕ) : Upload σ Unit :=
  uploadLoop sys (1024 * 100) (fun _ => writeChunk (writeWaiting sys n) quietly n)
    (fun r => r.2 > 0) n

/-- The waiting loop of `scp_write_nonblock.c` forgets `prev` whenever it has to wait. -/
def writeForgetting (n : ℕ) (buf : List Byte) (prev : ℕ) : Upload σ (Accepted buf.length × ℕ) :=
  turns (fun prev => do
    let rc ← write sys buf
    if wouldBlock rc then
      let _ ← waitsocket sys
      pure (.inl 0)
    else
      pure (.inr (rc, prev))) n prev

/-- The inner loop of `scp_write_nonblock.c`, with `prev` for the message. -/
def writeChunkNonblock (n total : ℕ) (mem : List Byte) : Upload σ (ℕ × Int) :=
  turns (fun ((c, prev) : Cursor × ℕ) => do
    let (rc, prev) ← writeForgetting sys n ((mem.drop c.ptr).take c.nread) prev
    if rc.1 < 0 then
      note (.stderr s!"ERROR {rc.1} total {total} / {c.nread} prev {prev}\n")
      pure (.inr (c.nread, rc.1))
    else if c.nread - rc.1.toNat ≠ 0 then
      pure (.inl (⟨c.ptr + rc.1.toNat, c.nread - rc.1.toNat⟩, c.nread))
    else
      pure (.inr (0, rc.1))) n (⟨0, mem.length⟩, 0)

/-- `scp_write_nonblock.c`, whose outer loop is `while (!nread)`. -/
def scpWriteNonblock (n : ℕ) : Upload σ Unit :=
  uploadLoop sys (1024 * 100) (writeChunkNonblock sys n) (fun r => r.1 = 0) n

def slidingSize : ℕ := 1024 * 1000

/-- `sftp_write_sliding.c`. A turn starts with the first `memuse` bytes of the buffer; what was not
accepted moves to its front, and more of the file is read behind it. -/
def sftpWriteSliding (n : ℕ) : Upload σ Unit :=
  turns (fun mem => do
    let chunk ← fread sys (slidingSize - mem.length)
    if chunk.1 = [] ∧ mem = [] then
      pure (.inr ())
    else
      let rc ← writeWaiting sys n (mem ++ chunk.1)
      if rc.1 < 0 then
        pure (.inr ())
      else if rc.1 > 0 then
        pure (.inl ((mem ++ chunk.1).drop rc.1.toNat))
      else
        pure (.inr ())) n []

/-- The inner loop of `sftp_RW_nonblock.c`: `nread -= nread` leaves nothing to be offered again. -/
def rwChunk (n : ℕ) (mem : List Byte) : Upload σ Int :=
  turns (fun c : Cursor => do
    let rc ← write sys ((mem.drop c.ptr).take c.nread)
    if rc.1 ≥ 0 then
      pure (.inl ⟨c.ptr + rc.1.toNat, c.nread - c.nread⟩)
    else
      pure (.inr rc.1)) n ⟨0, mem.length⟩

/-- The upload in `sftp_RW_nonblock.c`. -/
def rwUpload (n : ℕ) : Upload σ Unit :=
  turns (fun _ : Unit => do
    let mem ← fread sys 1000
    if mem.1 = [] then
      pure (.inr ())
    else
      let rc ← rwChunk sys n mem
      if rc ≠ libssh2ErrorEagain then
        pure (.inr ())
      else
        let rc ← ask sys.select .select
        if rc ≤ 0 then
          note (.stderr s!"SFTP upload timed out: {rc}\n")
          pure (.inr ())
        else
          pure (.inl ())) n ()

/-! ## What has been read, and what was accepted -/

def upload : Reading Event Byte where
  taken
    | .fread _ mem => mem
    | _ => []
  offer
    | .write buf rc => some (buf, rc.toNat)
    | _ => none
  taken_nil e o h := by cases e <;> first | rfl | cases h

/-- A write that failed, other than with a code after which the program tries again. -/
def Refused (again : Int → Bool) : Event → Prop
  | .write _ rc => rc < 0 ∧ again rc = false
  | _ => False

/-- An entry that neither reads nor writes. -/
def Quiet : Event → Prop
  | .fread _ _ | .write _ _ => False
  | _ => True

theorem Quiet.nothing {e : Event} (h : Quiet e) :
    upload.offer e = none ∧ upload.taken e = [] ∧ ∀ again, ¬ Refused again e := by
  cases e with
  | fread size mem => exact h.elim
  | write buf rc => exact h.elim
  | _ => exact ⟨rfl, rfl, fun _ => id⟩

/-- How the state of a transfer is told from its log: `Waits p` while `p` is to be offered next, and
`Failed p` behind the write of `p` that was refused. -/
structure Tracks (again : Int → Bool) (Good : List Event → Event → Prop)
    (Waits Failed : List Byte → List Event → Prop) : Prop where
  waits_quiet : ∀ {p l e}, Quiet e → Waits p l → Good l e ∧ Waits p (l ++ [e])
  failed_quiet : ∀ {p l e}, Quiet e → Failed p l → Good l e ∧ Failed p (l ++ [e])
  write : ∀ {p l rc}, Waits p l → Good l (.write p rc)
  accept : ∀ {p l rc}, Waits p l → 0 ≤ rc ∨ again rc = true →
    Waits (p.drop rc.toNat) (l ++ [.write p rc])
  refuse : ∀ {p l rc}, Waits p l → p ≠ [] → rc < 0 → again rc = false →
    Failed p (l ++ [.write p rc])

section Tracks

variable {again : Int → Bool} {Good : List Event → Event → Prop}
variable {Waits Failed : List Byte → List Event → Prop}
    {E : Unit → List Event → Prop} {sys : System σ}

/-- Behind a write, however it is made. -/
def Writes (Good : List Event → Event → Prop) (Waits Failed : List Byte → List Event → Prop)
    (E : Unit → List Event → Prop) (write : (buf : List Byte) → Upload σ (Accepted buf.length)) :
    Prop :=
  ∀ buf, buf ≠ [] → Meets Good (Waits buf) (write buf)
    (fun rc l => if rc.1 < 0 then Failed buf l else Waits (buf.drop rc.1.toNat) l) E

theorem write_writes (h : Tracks (fun _ => false) Good Waits Failed) :
    Writes Good Waits Failed E (write sys) := by
  intro buf hbuf
  apply Meets.ask
  · exact fun rc l hl => h.write hl
  · intro rc l hl
    split
    · exact h.refuse hl hbuf ‹_› rfl
    · exact h.accept hl (.inl (Int.not_lt.mp ‹_›))

/-- The codes after which the non-blocking programs try again. -/
def eagain (rc : Int) : Bool := rc = libssh2ErrorEagain

theorem waiting_meets (h : Tracks eagain Good Waits Failed) {buf : List Byte} (hbuf : buf ≠ []) :
    Meets Good (Waits buf) (write sys buf) (fun rc l => if wouldBlock rc then Waits buf l
      else if rc.1 < 0 then Failed buf l else Waits (buf.drop rc.1.toNat) l) E := by
  apply Meets.ask
  · exact fun rc l hl => h.write hl
  · intro rc l hl
    by_cases hrc : rc.1 = libssh2ErrorEagain
    · have hblocks : wouldBlock rc = true := by simp [wouldBlock, hrc]
      have hkept := h.accept hl (.inr hblocks)
      have hzero : rc.1.toNat = 0 := by rw [hrc]; rfl
      rw [hzero] at hkept
      rwa [if_pos hblocks]
    · have hagain : eagain rc.1 = false := by simp [eagain, hrc]
      simp only [wouldBlock, hrc, decide_false, Bool.false_eq_true, if_false]
      split
      · exact h.refuse hl hbuf ‹_› hagain
      · exact h.accept hl (.inl (Int.not_lt.mp ‹_›))

theorem waitsocket_meets (h : Tracks again Good Waits Failed) {p : List Byte} :
    Meets Good (Waits p) (ask sys.waitsocket .waitsocket : Upload σ Int) (fun _ => Waits p) E :=
  Meets.ask (fun rc _ hl => (h.waits_quiet (e := .waitsocket rc) trivial hl).1)
    fun rc _ hl => (h.waits_quiet (e := .waitsocket rc) trivial hl).2

theorem note_meets (h : Tracks again Good Waits Failed) (text : String) {p : List Byte} :
    Meets Good (Failed p) (note (.stderr text) : Upload σ Unit) (fun _ => Failed p) E :=
  Meets.note (fun _ hl => (h.failed_quiet (e := .stderr text) trivial hl).1)
    fun _ hl => (h.failed_quiet (e := .stderr text) trivial hl).2

theorem writeWaiting_writes (h : Tracks eagain Good Waits Failed) (n : ℕ) :
    Writes Good Waits Failed E (writeWaiting sys n) := by
  intro buf hbuf
  apply Meets.turns (L := fun _ => Waits buf)
  · exact fun _ hl => hl
  intro _
  apply Meets.bind (waiting_meets h hbuf)
  intro rc
  apply Meets.ite
  · intro hrc
    simp only [hrc, if_true]
    apply Meets.bind (waitsocket_meets h)
    intro _
    exact Meets.pure fun _ hl => hl
  · intro hrc
    simp only [hrc]
    exact Meets.pure fun _ hl => hl

theorem writeForgetting_meets (h : Tracks eagain Good Waits Failed) (n prev : ℕ) {buf : List Byte}
    (hbuf : buf ≠ []) : Meets Good (Waits buf) (writeForgetting sys n buf prev)
      (fun r l => if r.1.1 < 0 then Failed buf l else Waits (buf.drop r.1.1.toNat) l) E := by
  apply Meets.turns (L := fun _ => Waits buf)
  · exact fun _ hl => hl
  intro _
  apply Meets.bind (waiting_meets h hbuf)
  intro rc
  apply Meets.ite
  · intro hrc
    simp only [hrc, if_true]
    apply Meets.bind (waitsocket_meets h)
    intro _
    exact Meets.pure fun _ hl => hl
  · intro hrc
    simp only [hrc]
    exact Meets.pure fun _ hl => hl

/-- How an inner loop ends: the chunk was accepted, or its rest was refused. -/
def ChunkEnds (Waits Failed : List Byte → List Event → Prop) (r : ℕ × Int)
    (l : List Event) : Prop :=
  (r.1 = 0 ∧ 0 < r.2 ∧ Waits [] l) ∨
    (r.1 ≠ 0 ∧ r.2 < 0 ∧ ∃ rest, rest ≠ [] ∧ Failed rest l)

/-- The cursor stands in front of a rest of the chunk that is not empty. -/
def Cursor.At (c : Cursor) (mem : List Byte) : Prop := 0 < c.nread ∧ c.ptr + c.nread = mem.length

theorem Cursor.At.window {c : Cursor} {mem : List Byte} (h : c.At mem) :
    (mem.drop c.ptr).take c.nread = mem.drop c.ptr ∧ (mem.drop c.ptr).length = c.nread := by
  obtain ⟨-, hlen⟩ := h
  have hdrop : (mem.drop c.ptr).length = c.nread := by
    rw [List.length_drop]
    omega
  exact ⟨List.take_of_length_le (Nat.le_of_eq hdrop), hdrop⟩

/-- What an inner loop does behind a write. -/
theorem chunk_step {mem : List Byte} {c : Cursor} (hc : c.At mem) {α : Type} {rc : Int}
    (hcount : rc ≤ c.nread) (next : Cursor → α) {onError : Upload σ Unit}
    (hError : ∀ p, Meets Good (Failed p) onError (fun _ => Failed p) E) :
    Meets Good (fun l => if rc < 0 then Failed ((mem.drop c.ptr).take c.nread) l
        else Waits (((mem.drop c.ptr).take c.nread).drop rc.toNat) l)
      (if rc < 0 then do
        onError
        pure (.inr (c.nread, rc))
      else if c.nread - rc.toNat ≠ 0 then
        pure (.inl (next ⟨c.ptr + rc.toNat, c.nread - rc.toNat⟩))
      else
        pure (.inr (0, rc)) : Upload σ (α ⊕ (ℕ × Int)))
      (fun r l => r.elim (fun i => ∃ c' : Cursor, i = next c' ∧ c'.At mem ∧
        Waits (mem.drop c'.ptr) l)
        (ChunkEnds Waits Failed · l)) E := by
  obtain ⟨hwindow, hlen⟩ := hc.window
  obtain ⟨hpos, hend⟩ := hc
  rw [hwindow]
  apply Meets.ite
  · intro hneg
    simp only [hneg, if_true]
    apply Meets.bind (hError _)
    intro _
    apply Meets.pure
    intro l hl
    exact .inr ⟨Nat.ne_of_gt hpos, hneg, _, List.ne_nil_of_length_pos (by omega), hl⟩
  · intro hneg
    simp only [hneg, if_false, List.drop_drop]
    apply Meets.ite
    · intro hmore
      apply Meets.pure
      intro l hl
      refine ⟨_, rfl, ?_, hl⟩
      constructor <;> simp only <;> omega
    · intro hdone
      apply Meets.pure
      intro l hl
      have hnil : mem.drop (c.ptr + rc.toNat) = [] := by
        rw [List.drop_eq_nil_iff]
        omega
      rw [hnil] at hl
      exact .inl ⟨rfl, by omega, hl⟩

theorem Cursor.At.start {mem : List Byte} (h : mem ≠ []) : Cursor.At ⟨0, mem.length⟩ mem :=
  ⟨List.length_pos_iff.mpr h, Nat.zero_add _⟩

theorem Cursor.count_le {c : Cursor} {mem : List Byte}
    (rc : Accepted ((mem.drop c.ptr).take c.nread).length) : rc.1 ≤ c.nread := by
  have hle := rc.2
  have hlen : ((mem.drop c.ptr).take c.nread).length ≤ c.nread := List.length_take_le _ _
  omega

theorem Cursor.At.window_ne_nil {c : Cursor} {mem : List Byte} (h : c.At mem) :
    (mem.drop c.ptr).take c.nread ≠ [] := by
  obtain ⟨hwindow, hlen⟩ := h.window
  have hpos := h.1
  rw [hwindow]
  apply List.ne_nil_of_length_pos
  omega

theorem writeChunk_meets {write : (buf : List Byte) → Upload σ (Accepted buf.length)}
    {onError : Int → Upload σ Unit}
    (hwrite : Writes Good Waits Failed E write)
    (hError : ∀ rc p, Meets Good (Failed p) (onError rc) (fun _ => Failed p) E)
    (n : ℕ) {mem : List Byte} (hmem : mem ≠ []) :
    Meets Good (Waits mem) (writeChunk write onError n mem) (ChunkEnds Waits Failed) E := by
  apply Meets.turns (L := fun c l => c.At mem ∧ Waits (mem.drop c.ptr) l)
  · exact fun l hl => ⟨.start hmem, hl⟩
  intro c
  apply Meets.assuming
  intro hc
  apply Meets.bind
  · apply (hwrite _ hc.window_ne_nil).pre
    rw [hc.window.1]
    exact fun l hl => hl
  · intro rc
    apply (chunk_step hc (Cursor.count_le rc) id (fun p => hError rc.1 p)).post
    rintro (c' | r) l hl
    · obtain ⟨c'', rfl, hc''⟩ := hl
      exact hc''
    · exact hl

theorem writeChunkNonblock_meets (h : Tracks eagain Good Waits Failed) (n total : ℕ)
    {mem : List Byte} (hmem : mem ≠ []) :
    Meets Good (Waits mem) (writeChunkNonblock sys n total mem) (ChunkEnds Waits Failed) E := by
  apply Meets.turns (L := fun i l => i.1.At mem ∧ Waits (mem.drop i.1.ptr) l)
  · exact fun l hl => ⟨.start hmem, hl⟩
  rintro ⟨c, prev⟩
  apply Meets.assuming
  intro hc
  apply Meets.bind
  · apply (writeForgetting_meets h n prev hc.window_ne_nil).pre
    rw [hc.window.1]
    exact fun l hl => hl
  · rintro ⟨rc, prev'⟩
    apply (chunk_step hc (Cursor.count_le rc) (fun c' => (c', c.nread)) ?_).post
    · rintro (i | r) l hl
      · obtain ⟨c', rfl, hc'⟩ := hl
        exact hc'
      · exact hl
    · intro p
      exact note_meets h _

end Tracks

end CloudSsh.FileUploads
