import CloudSsh.FileUploads

/-!
# What arrives of a file

The loops that stop at a refused write send the file in order and in full unless a write is refused.
The loops that go on behind one leave holes.
-/
namespace CloudSsh.UploadedFiles
open EnvironmentPrograms InterruptedPrograms BufferedTransfers FileUploads
open RelayLoop (Byte libssh2ErrorEagain)

variable {σ : Type} {sys : System σ} {again : Int → Bool} {p : List Byte}
    {l : List Event} {e : Event}

/-! ## Loops that stop at a refused write -/

/-- What is offered is what was read and has not been accepted, and more is read only when there is
nothing of that. -/
structure Steady (before : List Event) (e : Event) : Prop where
  offers : upload.InOrder before e
  reads : ∀ size mem, e = .fread size mem → upload.Pending [] before ∧ mem.length ≤ size

def NoneRefused (again : Int → Bool) (l : List Event) : Prop := ∀ e ∈ l, ¬ Refused again e

def WaitsSteady (again : Int → Bool) (p : List Byte) (l : List Event) : Prop :=
  upload.Pending p l ∧ NoneRefused again l

def FailedSteady (again : Int → Bool) (p : List Byte) (l : List Event) : Prop :=
  upload.Pending p l ∧ ¬ NoneRefused again l

theorem noneRefused_concat (he : ¬ Refused again e) :
    NoneRefused again (l ++ [e]) ↔ NoneRefused again l := by
  simp [NoneRefused, or_imp, forall_and, he]

theorem not_noneRefused {buf : List Byte} {rc : Int} (hneg : rc < 0) (hagain : again rc = false) :
    ¬ NoneRefused again (l ++ [.write buf rc]) :=
  fun h => h (.write buf rc) (by simp) ⟨hneg, hagain⟩

theorem steady_of_quiet (h : Quiet e) : Steady l e where
  offers := Reading.inOrder_of_none h.nothing.1
  reads size mem he := by
    subst he
    exact h.elim

theorem steady_tracks (again : Int → Bool) :
    Tracks again Steady (WaitsSteady again) (FailedSteady again) where
  waits_quiet he h := by
    obtain ⟨ho, ht, hr⟩ := he.nothing
    exact ⟨steady_of_quiet he, h.1.quiet ho ht, (noneRefused_concat (hr again)).mpr h.2⟩
  failed_quiet he h := by
    obtain ⟨ho, ht, hr⟩ := he.nothing
    exact ⟨steady_of_quiet he, h.1.quiet ho ht, (noneRefused_concat (hr again)).not.mpr h.2⟩
  write h := ⟨h.1.inOrder rfl, by simp⟩
  accept h hrc := by
    refine ⟨h.1.accept rfl, (noneRefused_concat ?_).mpr h.2⟩
    rintro ⟨hneg, hagain⟩
    rcases hrc with hrc | hrc
    · omega
    · rw [hagain] at hrc
      cases hrc
  refuse {p l rc} h hp hneg hagain := by
    have haccept := h.1.accept (e := .write p rc) rfl
    rw [Int.toNat_of_nonpos (Int.le_of_lt hneg), List.drop_zero] at haccept
    exact ⟨haccept, not_noneRefused hneg hagain⟩

/-- The last entry finds the file at its end. -/
def AtEnd (l : List Event) : Prop := ∃ size, [.fread size []] <:+ l

/-- How such an upload ends. -/
def Done (again : Int → Bool) (l : List Event) : Prop :=
  (AtEnd l ∧ WaitsSteady again [] l) ∨ ∃ rest, rest ≠ [] ∧ FailedSteady again rest l

theorem fread_meets {E : Unit → List Event → Prop} (size : ℕ) :
    Meets Steady (WaitsSteady again []) (fread sys size)
      (fun mem l => WaitsSteady again mem.1 l ∧ (mem.1 = [] → AtEnd l)) E := by
  apply Meets.ask
  · rintro mem l ⟨hp, -⟩
    refine ⟨Reading.inOrder_of_none rfl, ?_⟩
    intro size' mem' he
    obtain ⟨rfl, rfl⟩ : size = size' ∧ mem.1 = mem' := by simpa using he
    exact ⟨hp, mem.2⟩
  · rintro mem l ⟨hp, hr⟩
    refine ⟨⟨hp.take rfl, (noneRefused_concat id).mpr hr⟩, ?_⟩
    intro hnil
    rw [hnil]
    exact ⟨size, List.suffix_append _ _⟩

theorem uploadLoop_meets {E : Unit → List Event → Prop} {chunk : ℕ → List Byte → Upload σ (ℕ × Int)}
    {goOn : ℕ × Int → Bool} (size n : ℕ)
    (hchunk : ∀ total mem, mem ≠ [] → Meets Steady (WaitsSteady again mem) (chunk total mem)
      (ChunkEnds (WaitsSteady again) (FailedSteady again)) E)
    (hgo : ∀ rc, 0 < rc → goOn (0, rc) = true)
    (hstop : ∀ nread rc, nread ≠ 0 → rc < 0 → goOn (nread, rc) = false) :
    Meets Steady (WaitsSteady again []) (uploadLoop sys size chunk goOn n)
      (fun _ => Done again) E := by
  apply Meets.turns (L := fun _ => WaitsSteady again [])
  · exact fun _ h => h
  intro total
  apply Meets.bind (fread_meets size)
  rintro ⟨mem, hfits⟩
  apply Meets.ite
  · rintro rfl
    apply Meets.pure
    rintro l ⟨hp, hend⟩
    exact .inl ⟨hend rfl, hp⟩
  · intro hmem
    apply Meets.bind ((hchunk _ mem hmem).pre fun _ h => h.1)
    rintro ⟨nread, rc⟩
    apply Meets.ite
    · intro hr
      apply Meets.pure
      rintro l (⟨-, -, h⟩ | ⟨hnread, hrc, -⟩)
      · exact h
      · rw [hstop nread rc hnread hrc] at hr
        cases hr
    · intro hr
      apply Meets.pure
      rintro l (⟨rfl, hrc, -⟩ | ⟨-, -, hfailed⟩)
      · exact absurd (hgo rc hrc) hr
      · exact .inr hfailed

/-- What is known of a whole run: the file goes out in order, and in full exactly if no write is
refused, which is also the only way to stop before the end of the file. -/
structure Sends (again : Int → Bool) (value : Ending Unit Unit) (l : List Event) : Prop where
  steady : Throughout Steady l
  moments : ∀ moment, moment <+: l → upload.sentOf moment <+: upload.takenOf moment
  whole_iff : value = .value () → (upload.sentOf l = upload.takenOf l ↔ NoneRefused again l)
  atEnd : value = .value () → NoneRefused again l → AtEnd l

theorem Done.whole_iff (h : Done again l) :
    upload.sentOf l = upload.takenOf l ↔ NoneRefused again l := by
  rcases h with ⟨-, hp, hr⟩ | ⟨rest, hrest, hp, hr⟩
  · exact iff_of_true hp.all_sent hr
  · exact iff_of_false (hp.ne hrest) hr

theorem sends_of_meets {P : Upload σ Unit} {E : Unit → List Event → Prop}
    (h : Meets Steady (WaitsSteady again []) P (fun _ => Done again) E) (s : σ) :
    Sends again (P s).value (P s).log := by
  have hstart : WaitsSteady again [] [] := ⟨rfl, by simp [NoneRefused]⟩
  have hall := h.log hstart s
  refine ⟨hall, ?_, ?_, ?_⟩
  · intro moment hm
    apply Reading.sent_prefix
    exact (hall.of_prefix hm).mono fun _ _ he => he.offers
  · intro hv
    exact Done.whole_iff (h.value hstart hv)
  · intro hv hr
    rcases h.value hstart hv with ⟨hend, -⟩ | ⟨rest, -, -, hrefused⟩
    · exact hend
    · exact absurd hr hrefused

theorem quietly_meets {Failed : List Byte → List Event → Prop} {E : Unit → List Event → Prop}
    (rc : Int) (p : List Byte) :
    Meets Steady (Failed p) (quietly rc : Upload σ Unit) (fun _ => Failed p) E :=
  Meets.pure fun _ h => h

theorem sftpWrite_meets {E : Unit → List Event → Prop} (n : ℕ) :
    Meets Steady (WaitsSteady (fun _ => false) []) (sftpWrite sys n)
      (fun _ => Done fun _ => false) E := by
  apply uploadLoop_meets
  · intro _ mem hmem
    exact writeChunk_meets (write_writes (steady_tracks _)) quietly_meets n hmem
  · exact fun rc hrc => decide_eq_true hrc
  · exact fun nread rc _ hrc => decide_eq_false (Int.not_lt.mpr (Int.le_of_lt hrc))

theorem sftpAppend_meets (n : ℕ) : Meets Steady (WaitsSteady (fun _ => false) []) (sftpAppend sys n)
    (fun _ => Done fun _ => false) fun _ _ => True := by
  have hkept : ∀ {e l}, Quiet e → WaitsSteady (fun _ => false) [] l →
      Steady l e ∧ WaitsSteady (fun _ => false) [] (l ++ [e]) := (steady_tracks _).waits_quiet
  have hsay : ∀ text, Meets Steady (WaitsSteady (fun _ => false) [])
    (note (.stderr text) : Upload σ Unit)
      (fun _ => WaitsSteady (fun _ => false) []) fun _ _ => True := fun text =>
    Meets.note (fun l h => (hkept (e := .stderr text) trivial h).1)
      fun l h => (hkept (e := .stderr text) trivial h).2
  apply Meets.bind (Q := fun _ => WaitsSteady (fun _ => false) [])
  · exact Meets.ask (fun r l h => (hkept (e := .fstat r.1 r.2) trivial h).1)
      fun r l h => (hkept (e := .fstat r.1 r.2) trivial h).2
  rintro ⟨rc, filesize⟩
  apply Meets.ite
  · intro _
    apply Meets.bind (hsay _)
    exact fun _ => Meets.leave fun _ _ => trivial
  · intro _
    apply Meets.bind (Q := fun _ => WaitsSteady (fun _ => false) [])
    · exact Meets.note (fun l h => (hkept (e := .seek filesize) trivial h).1)
        fun l h => (hkept (e := .seek filesize) trivial h).2
    intro _
    apply Meets.bind (hsay _)
    intro _
    apply Meets.bind (hsay _)
    intro _
    apply Meets.bind (hsay _)
    exact fun _ => sftpWrite_meets n

theorem sftpWriteNonblock_meets (n : ℕ) : Meets Steady (WaitsSteady eagain [])
    (sftpWriteNonblock sys n) (fun _ => Done eagain) fun _ _ => True := by
  apply uploadLoop_meets
  · intro _ mem hmem
    exact writeChunk_meets (writeWaiting_writes (steady_tracks _) n) quietly_meets n hmem
  · exact fun rc hrc => decide_eq_true hrc
  · exact fun nread rc _ hrc => decide_eq_false (Int.not_lt.mpr (Int.le_of_lt hrc))

theorem scpWriteNonblock_meets (n : ℕ) : Meets Steady (WaitsSteady eagain [])
    (scpWriteNonblock sys n) (fun _ => Done eagain) fun _ _ => True := by
  apply uploadLoop_meets
  · intro total mem hmem
    exact writeChunkNonblock_meets (steady_tracks _) n total hmem
  · exact fun _ _ => rfl
  · exact fun nread rc hnread _ => decide_eq_false hnread

theorem sftpWrite_sends (sys : System σ) (n : ℕ) (s : σ) :
    Sends (fun _ => false) (sftpWrite sys n s).value (sftpWrite sys n s).log :=
  sends_of_meets (E := fun _ _ => True) (sftpWrite_meets n) s

theorem sftpWriteNonblock_sends (sys : System σ) (n : ℕ) (s : σ) :
    Sends eagain (sftpWriteNonblock sys n s).value (sftpWriteNonblock sys n s).log :=
  sends_of_meets (sftpWriteNonblock_meets n) s

theorem scpWriteNonblock_sends (sys : System σ) (n : ℕ) (s : σ) :
    Sends eagain (scpWriteNonblock sys n s).value (scpWriteNonblock sys n s).log :=
  sends_of_meets (scpWriteNonblock_meets n) s

/-- Four programs send a file in order, in as many writes as it takes, and stop early only at a
write that is refused. What counts as refused differs: the blocking ones do not try again after
would-block. -/
theorem uploads_in_order (sys : System σ) (n : ℕ) (s : σ) :
    Sends (fun _ => false) (sftpWrite sys n s).value (sftpWrite sys n s).log ∧
      Sends (fun _ => false) (sftpAppend sys n s).value (sftpAppend sys n s).log ∧
      Sends eagain (sftpWriteNonblock sys n s).value (sftpWriteNonblock sys n s).log ∧
      Sends eagain (scpWriteNonblock sys n s).value (scpWriteNonblock sys n s).log :=
  ⟨sftpWrite_sends sys n s, sends_of_meets (sftpAppend_meets n) s, sftpWriteNonblock_sends sys n s,
    scpWriteNonblock_sends sys n s⟩

/-! ## The non-blocking program and the blocking one -/

/-- The system whose write takes as long as up to `n` tries of `sys` and the pauses between them. -/
def patient (sys : System σ) (n : ℕ) : System σ :=
  { sys with write := fun buf => firstAnswer wouldBlock (sys.write buf) sys.waitsocket n }

/-- Not a try that would have blocked, and not the pause behind one. -/
def settles : Event → Bool
  | .write _ rc => !eagain rc
  | .waitsocket _ => false
  | _ => true

theorem writeWaiting_follows (n : ℕ) (buf : List Byte) :
    Follows settles (writeWaiting sys n buf) (write (patient sys n) buf) := by
  apply follows_retry
  · exact fun _ => rfl
  · exact fun _ => rfl

theorem writeChunk_follows {write write' : (buf : List Byte) → Upload σ (Accepted buf.length)}
    {onError : Int → Upload σ Unit} (hwrite : ∀ buf, Follows settles (write buf) (write' buf))
    (hError : ∀ rc, Follows settles (onError rc) (onError rc)) (n : ℕ) (mem : List Byte) :
    Follows settles (writeChunk write onError n mem) (writeChunk write' onError n mem) := by
  apply Follows.turns
  intro c
  apply Follows.bind (hwrite _)
  intro rc
  apply Follows.ite
  · exact (hError rc).bind fun _ => .pure _
  · exact .ite (.pure _) (.pure _)

/-- Wherever the non-blocking program gets, the blocking one gets as well, with the tries that would
have blocked and the pauses left out: given a system whose writes wait by themselves, it reads the
same, makes the same other writes, and ends in the same way. -/
theorem sftpWriteNonblock_follows (sys : System σ) (n : ℕ) (s : σ)
    (h : (sftpWriteNonblock sys n s).value ≠ .cut) :
    sftpWrite (patient sys n) n s = ⟨(sftpWriteNonblock sys n s).value,
      (sftpWriteNonblock sys n s).env, (sftpWriteNonblock sys n s).log.filter settles⟩ := by
  have hfollows : Follows settles (sftpWriteNonblock sys n) (sftpWrite (patient sys n) n) := by
    apply Follows.turns
    intro total
    apply Follows.bind (p := fread sys (1024 * 100)) (Follows.ask fun _ => rfl)
    intro mem
    apply Follows.ite (.pure _)
    apply Follows.bind
    · exact writeChunk_follows (writeWaiting_follows n) (fun _ => .pure _) n _
    · exact fun _ => .ite (.pure _) (.pure _)
  exact hfollows s h

/-- A file of one byte, whose first write may block. -/
def oneByte (blocks : Bool) : System ℕ where
  fread size s := if h : 1 ≤ size ∧ s = 0 then (⟨[65], h.1⟩, 1) else (⟨[], Nat.zero_le _⟩, s)
  write buf s :=
    if blocks ∧ s = 1 then (⟨libssh2ErrorEagain, by simp [libssh2ErrorEagain]⟩, 2)
    else (⟨buf.length, Int.le_refl _⟩, 3)
  waitsocket s := (1, s)
  select s := (1, s)
  fstat s := ((0, 0), s)

theorem sftpWriteNonblock_follows_oneByte :
    let run := sftpWriteNonblock (oneByte true) 3 0
    sftpWrite (patient (oneByte true) 3) 3 0 = ⟨run.value, run.env, run.log.filter settles⟩ :=
  sftpWriteNonblock_follows (oneByte true) 3 0 (by decide)

end CloudSsh.UploadedFiles
