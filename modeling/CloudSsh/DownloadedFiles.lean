import CloudSsh.FileDownloads

/-!
# Downloads hand on what they receive

In every run of a download what was handed to its outputs is a first part of what was received, at
most one read behind it, and all of it at the end. The SCP programs never ask for more than the file
has, and stop before its end only at a failed read.
-/
namespace CloudSsh.DownloadedFiles
open EnvironmentPrograms InterruptedPrograms BufferedTransfers FileDownloads
open RelayLoop (Byte ReadResult libssh2ErrorEagain)

variable {σ : Type} {sys : System σ} {sinks : List Sink} {want : ℕ → ℕ} {got : ℕ} {l : List Event}
variable {E : Empty → List Event → Prop}

/-! ## The programs -/

/-- How `scp.c` ends: the file is there, or a read failed. -/
def ScpEnds (st_size : Int) (failed : Int → Prop) (l : List Event) : Prop :=
  ∃ got rc, Waiting [.stdout] got rc (fun _ => []) l ∧
    (st_size ≤ got ∨ ∃ code, rc = some code ∧ failed code)

theorem ScpEnds.idle {st_size : Int} {failed : Int → Prop} (h : ScpEnds st_size failed l) :
    ∃ got, Idle [.stdout] got l := by
  obtain ⟨got, rc, h, -⟩ := h
  exact ⟨got, rc, h⟩

theorem scp_meets (st_size : Int) (n : ℕ) :
    Meets (Faithful [.stdout] (amount 1024 st_size)) (Idle [.stdout] 0) (scp sys st_size n)
      (fun _ => ScpEnds st_size (· < 0)) E := by
  apply Meets.turns (L := Idle [.stdout])
  · exact fun _ hl => hl
  intro got
  apply Meets.ite
  · intro _
    apply Meets.bind (read_waiting rfl)
    intro r
    apply Meets.ite
    · intro _
      apply Meets.bind out_all
      intro _
      apply Meets.pure
      intro l hl
      rw [r.count_toNat]
      exact ⟨_, hl⟩
    · intro hnone
      apply Meets.pre _ fun l hl => Waiting.none hnone hl
      apply Meets.ite
      · intro hneg
        apply Meets.bind (note_waiting (e := .stderr _) trivial)
        intro _
        exact Meets.pure fun l hl => ⟨_, _, hl, .inr ⟨_, rfl, hneg⟩⟩
      · intro _
        apply Meets.pure
        intro l hl
        rw [r.count_toNat]
        exact ⟨_, hl⟩
  · intro hall
    apply Meets.pure
    rintro l ⟨rc, hl⟩
    exact ⟨got, rc, hl, .inl (Int.not_lt.mp hall)⟩

theorem scpNonblock_meets (st_size : Int) (n : ℕ) :
    Meets (Faithful [.stdout] (amount (1024 * 24) st_size)) (Idle [.stdout] 0)
      (scpNonblock sys st_size n)
      (fun _ => ScpEnds st_size fun code => code ≤ 0 ∧ code ≠ libssh2ErrorEagain) E := by
  apply Meets.turns (L := Idle [.stdout])
  · exact fun _ hl => hl
  intro got
  apply Meets.ite
  · intro _
    apply Meets.bind (drain_meets (counts_bytes _) toStdout_hands n)
    rintro ⟨got, rc⟩
    apply Meets.assuming
    intro hrc
    apply Meets.given
    rintro got rfl
    apply Meets.ite
    · intro _
      apply Meets.bind (ask_waiting .waitsocket fun _ => trivial)
      intro _
      exact Meets.pure fun l hl => ⟨_, hl⟩
    · intro hstop
      apply Meets.pure
      intro l hl
      refine ⟨got, some rc, hl, ?_⟩
      by_cases hall : st_size ≤ got
      · exact .inl hall
      · refine .inr ⟨rc, rfl, hrc, ?_⟩
        intro hagain
        exact hstop ⟨hagain, Int.not_le.mp hall⟩
  · intro hall
    apply Meets.pure
    rintro l ⟨rc, hl⟩
    exact ⟨got, rc, hl, .inl (Int.not_lt.mp hall)⟩

/-- Between the turns of a loop nothing waits. -/
def Resting (sinks : List Sink) (l : List Event) : Prop := ∃ got, Idle sinks got l

theorem resting_nil (sinks : List Sink) : Resting sinks [] := ⟨0, idle_nil sinks⟩

theorem note_resting {text : String} : Meets (Faithful sinks want) (Resting sinks)
    (note (.stderr text) : Download σ Unit) (fun _ => Resting sinks) E := by
  apply Meets.known
  intro got
  apply (note_idle (e := .stderr _) trivial).post
  exact fun _ _ hl => ⟨got, hl⟩

/-- What is read waits, where every read asks for the same. -/
theorem ask_resting {size : ℕ} :
    Meets (Faithful sinks fun _ => size) (Resting sinks) (read sys size)
      (fun r l => ∃ got, Waiting sinks got (some r.count) (fun _ => r.bytes) l) E := by
  apply Meets.known
  intro got
  apply (@read_waiting _ sys sinks (fun _ => size) got E size rfl).post
  exact fun _ _ hl => ⟨_, hl⟩

/-- What was read is handed on before the next turn. -/
theorem handOn_meets {size : ℕ} (r : ReadResult size) :
    Meets (Faithful [.stdout] want)
      (fun l => ∃ got, Waiting [.stdout] got (some r.count) (fun _ => r.bytes) l)
      (if r.count > 0 then do
        out sys .stdout r.bytes
        pure (.inl ())
      else
        pure (.inr ()) : Download σ (Unit ⊕ Unit))
      (fun i l => i.elim (fun _ => Resting [.stdout] l) fun _ => Resting [.stdout] l) E := by
  apply Meets.known
  intro got
  apply Meets.ite
  · intro _
    apply Meets.bind out_all
    intro _
    exact Meets.pure fun l hl => ⟨got, _, hl⟩
  · intro hnone
    exact Meets.pure fun l hl => ⟨got, _, hl.none hnone⟩

theorem sftp_meets (n : ℕ) :
    Meets (Faithful [.stdout] fun _ => 1024) (Resting [.stdout]) (sftp sys n)
      (fun _ => Resting [.stdout]) E := by
  apply Meets.turns (L := fun _ => Resting [.stdout])
  · exact fun _ hl => hl
  intro _
  apply Meets.bind note_resting
  intro _
  apply Meets.bind ask_resting
  exact handOn_meets

theorem readWaiting_meets (size n : ℕ) :
    Meets (Faithful sinks fun _ => size) (Resting sinks) (readWaiting sys size n)
      (fun r l => ∃ got, Waiting sinks got (some r.count) (fun _ => r.bytes) l) E := by
  apply Meets.turns (L := fun _ => Resting sinks)
  · exact fun _ hl => hl
  intro _
  apply Meets.bind ask_resting
  intro r
  apply Meets.known
  intro got
  apply Meets.ite
  · intro hblocks
    have hnone : ¬ r.count > 0 := by
      have hcode : r.count = libssh2ErrorEagain := of_decide_eq_true hblocks
      rw [hcode]
      decide
    apply Meets.pre _ fun l hl => Waiting.none hnone hl
    apply Meets.bind (ask_waiting .waitsocket fun _ => trivial)
    intro _
    exact Meets.pure fun l hl => ⟨got, _, hl⟩
  · exact fun _ => Meets.pure fun l hl => ⟨got, hl⟩

theorem sftpNonblock_meets (n : ℕ) :
    Meets (Faithful [.stdout] fun _ => 1024 * 24) (Resting [.stdout]) (sftpNonblock sys n)
      (fun _ => Resting [.stdout]) E := by
  apply Meets.turns (L := fun _ => Resting [.stdout])
  · exact fun _ hl => hl
  intro _
  apply Meets.bind (readWaiting_meets (1024 * 24) n)
  exact handOn_meets

theorem rwDownload_meets (n : ℕ) :
    Meets (Faithful [.stderr, .tempstorage] fun _ => 1000) (Resting [.stderr, .tempstorage])
      (rwDownload sys n) (fun _ => Resting [.stderr, .tempstorage]) E := by
  apply Meets.turns (L := fun _ => Resting [.stderr, .tempstorage])
  · exact fun _ hl => hl
  intro _
  apply Meets.known
  intro got
  apply Meets.bind (drain_meets (counts_nothing 1000) toStorage_hands n)
  rintro ⟨_, rc⟩
  apply Meets.assuming
  intro _
  apply Meets.given
  intro got _
  apply Meets.ite
  · exact fun _ => Meets.pure fun l hl => ⟨got, _, hl⟩
  · intro _
    apply Meets.bind (ask_waiting .select fun _ => trivial)
    intro rc'
    apply Meets.ite
    · intro _
      apply Meets.bind (note_waiting (e := .stderr _) trivial)
      intro _
      exact Meets.pure fun l hl => ⟨got, _, hl⟩
    · exact fun _ => Meets.pure fun l hl => ⟨got, _, hl⟩

/-- What `bytecount` holds. -/
def Shown (bytecount : Int32) (l : List Event) : Prop :=
  ∃ got, bytecount = Int32.ofNat got ∧ Idle [.stderr] got l

theorem execOutput_meets (n : ℕ) :
    Meets (Faithful [.stderr] fun _ => 0x4000) (Idle [.stderr] 0) (execOutput sys n) Shown E := by
  apply Meets.turns (L := Shown)
  · exact fun _ hl => ⟨0, rfl, hl⟩
  intro bytecount
  apply Meets.given
  rintro got rfl
  apply Meets.bind (drain_meets (counts_int 0x4000) toStderr_hands n)
  rintro ⟨bytecount, rc⟩
  apply Meets.assuming
  intro _
  apply Meets.given
  rintro got rfl
  apply Meets.ite
  · intro _
    apply Meets.bind (ask_waiting .waitsocket fun _ => trivial)
    intro _
    exact Meets.pure fun l hl => ⟨got, rfl, _, hl⟩
  · exact fun _ => Meets.pure fun l hl => ⟨got, rfl, _, hl⟩

theorem report_meets (got : ℕ) (exitcode : Int) (exitsignal : Option String) :
    Meets (Faithful sinks want) (Idle sinks got)
      (report (Int32.ofNat got) exitcode exitsignal : Download σ Unit)
      (fun _ => Resting sinks) E := by
  cases exitsignal with
  | some exitsignal =>
    apply (note_idle (e := .stderr _) trivial).post
    exact fun _ _ hl => ⟨_, hl⟩
  | none =>
    apply Meets.note
    · rintro l ⟨rc, hl⟩
      refine ⟨fun k _ => Reading.inOrder_of_none rfl, ?_, ?_⟩
      · intro size rc mem he
        cases he
      · intro code count he
        cases he
        rw [hl.got]
    · rintro l ⟨rc, hl⟩
      refine ⟨got, rc, ?_, ?_, ?_⟩
      · rw [receivedOf_concat]
        simpa [receivedIn] using hl.got
      · rw [lastRead_concat]
        exact hl.last
      · exact fun k hk => (hl.pending k hk).quiet rfl rfl

theorem exec_meets (n : ℕ) :
    Meets (Faithful [.stderr] fun _ => 0x4000) (Idle [.stderr] 0) (exec sys n)
      (fun _ => Resting [.stderr]) E := by
  apply Meets.bind (execOutput_meets n)
  intro bytecount
  apply Meets.given
  rintro got rfl
  apply Meets.bind (Q := fun _ => Idle [.stderr] got)
  · apply Meets.turns (L := fun _ => Idle [.stderr] got)
    · exact fun _ hl => hl
    intro _
    apply Meets.bind (ask_idle .channelClose fun _ => trivial)
    intro rc
    apply Meets.ite
    · intro _
      apply Meets.bind (ask_idle .waitsocket fun _ => trivial)
      intro _
      exact Meets.pure fun l hl => hl
    · exact fun _ => Meets.pure fun l hl => hl
  intro rc
  apply Meets.ite
  · intro _
    apply Meets.bind (ask_idle .exitStatus fun _ => trivial)
    intro exitcode
    apply Meets.bind (ask_idle .exitSignal fun _ => trivial)
    intro exitsignal
    exact report_meets got exitcode exitsignal
  · exact fun _ => report_meets got 127 _

/-! ## All that is received -/

/-- The run hands what it receives to all of the sinks. -/
structure HandsOver (sinks : List Sink) (want : ℕ → ℕ) (value : Ending Empty Unit)
    (l : List Event) : Prop where
  faithful : Throughout (Faithful sinks want) l
  moments : ∀ moment, moment <+: l → ∀ k ∈ sinks, (toSink k).sentOf moment <+: receivedOf moment
  whole : value = .value () → ∀ k ∈ sinks, (toSink k).sentOf l = receivedOf l

theorem handsOver_of_meets {P : Download σ Unit} {start : List Event → Prop}
    {Q : Unit → List Event → Prop}
    (h : Meets (Faithful sinks want) start P Q fun _ _ => True) (hstart : start [])
    (hend : ∀ l, Q () l → Resting sinks l) (s : σ) :
    HandsOver sinks want (P s).value (P s).log := by
  have hall := h.log hstart s
  refine ⟨hall, ?_, ?_⟩
  · intro moment hm k hk
    have horder := (hall.of_prefix hm).mono fun before e he => he.offers k hk
    exact Reading.sent_prefix horder
  · intro hv k hk
    obtain ⟨got, rc, hidle⟩ := hend _ (h.value hstart hv)
    exact (hidle.pending k hk).all_sent

/-- Whatever the connection answers, every download hands all it has received to its outputs, in
order, and reads more only when it has. -/
theorem downloads_hand_over (sys : System σ) (st_size : Int) (n : ℕ) (s : σ) :
    HandsOver [.stdout] (amount 1024 st_size) (scp sys st_size n s).value
      (scp sys st_size n s).log ∧
    HandsOver [.stdout] (amount (1024 * 24) st_size) (scpNonblock sys st_size n s).value
      (scpNonblock sys st_size n s).log ∧
    HandsOver [.stdout] (fun _ => 1024) (sftp sys n s).value (sftp sys n s).log ∧
    HandsOver [.stdout] (fun _ => 1024 * 24) (sftpNonblock sys n s).value
      (sftpNonblock sys n s).log ∧
    HandsOver [.stderr, .tempstorage] (fun _ => 1000) (rwDownload sys n s).value
      (rwDownload sys n s).log ∧
    HandsOver [.stderr] (fun _ => 0x4000) (exec sys n s).value (exec sys n s).log := by
  refine ⟨?_, ?_, ?_, ?_, ?_, ?_⟩
  · exact handsOver_of_meets (scp_meets st_size n) (idle_nil _) (fun _ hl => hl.idle) s
  · exact handsOver_of_meets (scpNonblock_meets st_size n) (idle_nil _) (fun _ hl => hl.idle) s
  · exact handsOver_of_meets (sftp_meets n) (resting_nil _) (fun _ hl => hl) s
  · exact handsOver_of_meets (sftpNonblock_meets n) (resting_nil _) (fun _ hl => hl) s
  · exact handsOver_of_meets (rwDownload_meets n) (resting_nil _) (fun _ hl => hl) s
  · exact handsOver_of_meets (exec_meets n) (idle_nil _) (fun _ hl => hl) s

/-! ## The size of the file -/

theorem amount_le (chunk : ℕ) (st_size : Int) (got : ℕ) :
    amount chunk st_size got ≤ (st_size - got).toNat := by
  unfold amount
  split
  · exact Nat.le_refl _
  · omega

theorem received_le {chunk : ℕ} {st_size : Int}
    (h : Throughout (Faithful sinks (amount chunk st_size)) l) :
    (receivedOf l).length ≤ st_size.toNat := by
  induction l using List.reverseRecOn with
  | nil => exact Nat.zero_le _
  | append_singleton l e ih =>
    have hbefore := ih h.init
    rw [receivedOf_concat, List.length_append]
    cases e with
    | read size rc mem =>
      obtain ⟨hsize, hmem, -⟩ := h.last.asks size rc mem rfl
      have hle := amount_le chunk st_size (receivedOf l).length
      change (receivedOf l).length + mem.length ≤ _
      omega
    | _ => exact hbefore

/-- The run stays within the file, and if it ends it has all of it, or a read had failed. -/
structure WithinFile (st_size : Int) (failed : Int → Prop) (value : Ending Empty Unit)
    (l : List Event) : Prop where
  moments : ∀ moment, moment <+: l → (receivedOf moment).length ≤ st_size.toNat
  whole : value = .value () → (receivedOf l).length = st_size.toNat ∨
    ∃ code, lastRead l = some code ∧ failed code

theorem withinFile_of_meets {P : Download σ Unit} {chunk : ℕ} {st_size : Int} {failed : Int → Prop}
    (h : Meets (Faithful [.stdout] (amount chunk st_size)) (Idle [.stdout] 0) P
      (fun _ => ScpEnds st_size failed) fun _ _ => True) (s : σ) :
    WithinFile st_size failed (P s).value (P s).log := by
  have hall := h.log (idle_nil _) s
  refine ⟨fun moment hm => received_le (hall.of_prefix hm), ?_⟩
  intro hv
  obtain ⟨got, rc, hend, hsize | ⟨code, hrc, hfailed⟩⟩ := h.value (idle_nil _) hv
  · have hle := received_le hall
    have hgot := hend.got
    exact .inl (by omega)
  · exact .inr ⟨code, hend.last.trans hrc, hfailed⟩

/-- The SCP programs never receive more than the size that was announced, and end with less only if
the last read failed. `scp_nonblock.c` counts a read of nothing as failed, `scp.c` one that would
block. -/
theorem scp_within_file (sys : System σ) (st_size : Int) (n : ℕ) (s : σ) :
    WithinFile st_size (· < 0) (scp sys st_size n s).value (scp sys st_size n s).log ∧
    WithinFile st_size (fun code => code ≤ 0 ∧ code ≠ libssh2ErrorEagain)
      (scpNonblock sys st_size n s).value (scpNonblock sys st_size n s).log :=
  ⟨withinFile_of_meets (scp_meets st_size n) s, withinFile_of_meets (scpNonblock_meets st_size n) s⟩

end CloudSsh.DownloadedFiles
