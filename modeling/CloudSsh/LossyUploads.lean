import CloudSsh.UploadedFiles

/-!
# Uploads with holes

`scp_write.c` goes on with the next chunk of the file behind a write that was refused, and
`sftp_RW_nonblock.c` behind any write that accepted less than the chunk. What arrives is the file
with holes, and the file itself if and only if there was no such write.
-/
namespace CloudSsh.LossyUploads
open EnvironmentPrograms InterruptedPrograms BufferedTransfers FileUploads UploadedFiles
open RelayLoop (Byte libssh2ErrorEagain)

variable {σ : Type} {sys : System σ} {p : List Byte} {l : List Event} {e : Event}

/-! ## Behind a refused write -/

/-- A write that is refused, in a program that does not try again. -/
abbrev RefusedOnce : Event → Prop := Refused fun _ => false

theorem looselyInOrder_of_quiet {Bad : Event → Prop} (h : upload.offer e = none) :
    upload.LooselyInOrder Bad l e := by
  intro b k ho
  rw [h] at ho
  cases ho

theorem loosely_inOrder {Bad : Event → Prop} {rc : Int} (h : upload.Loosely Bad p l) :
    upload.LooselyInOrder Bad l (.write p rc) := by
  intro b k ho
  obtain ⟨rfl, -⟩ : p = b ∧ rc.toNat = k := by simpa [upload] using ho
  exact h

/-- What waits behind a refused write is given up. -/
theorem scp_tracks : Tracks (fun _ => false) (upload.LooselyInOrder RefusedOnce)
    (upload.Loosely RefusedOnce) (fun _ => upload.Loosely RefusedOnce []) where
  waits_quiet he h := by
    obtain ⟨ho, ht, hr⟩ := he.nothing
    exact ⟨looselyInOrder_of_quiet ho, h.quiet ho ht (hr _)⟩
  failed_quiet he h := by
    obtain ⟨ho, ht, hr⟩ := he.nothing
    exact ⟨looselyInOrder_of_quiet ho, h.quiet ho ht (hr _)⟩
  write h := loosely_inOrder h
  accept h hrc := by
    apply h.accept rfl
    rintro ⟨hneg, -⟩
    rcases hrc with hrc | hrc
    · omega
    · cases hrc
  refuse {p l rc} h hp hneg _ := by
    have hpos : 0 < p.length := List.length_pos_iff.mpr hp
    have hbad : RefusedOnce (.write p rc) := ⟨hneg, rfl⟩
    exact h.lose rfl hbad (by omega)

theorem fread_loosely {Bad : Event → Prop} {E : Unit → List Event → Prop} (size : ℕ)
    (hbad : ∀ size mem, ¬ Bad (.fread size mem)) :
    Meets (upload.LooselyInOrder Bad) (upload.Loosely Bad []) (fread sys size)
      (fun mem l => upload.Loosely Bad mem.1 l ∧ (mem.1 = [] → AtEnd l)) E := by
  apply Meets.ask
  · exact fun _ _ _ => looselyInOrder_of_quiet rfl
  · intro mem l h
    refine ⟨h.take rfl (hbad _ _), ?_⟩
    intro hnil
    rw [hnil]
    exact ⟨size, List.suffix_append _ _⟩

theorem scpWrite_meets {E : Unit → List Event → Prop} (n : ℕ) :
    Meets (upload.LooselyInOrder RefusedOnce) (upload.Loosely RefusedOnce []) (scpWrite sys n)
      (fun _ l => AtEnd l ∧ upload.Loosely RefusedOnce [] l) E := by
  apply Meets.turns (L := fun _ => upload.Loosely RefusedOnce [])
  · exact fun _ h => h
  intro total
  apply Meets.bind (fread_loosely 1024 fun _ _ => id)
  rintro ⟨mem, hfits⟩
  apply Meets.ite
  · rintro rfl
    exact Meets.pure fun l h => ⟨h.2 rfl, h.1⟩
  · intro hmem
    have hwrites : Writes _ _ _ E (write sys) := write_writes scp_tracks
    have hchunk := writeChunk_meets hwrites
      (fun rc p => note_meets (p := p) scp_tracks s!"ERROR {rc}\n") n hmem
    apply Meets.bind (hchunk.pre fun _ h => h.1)
    rintro ⟨nread, rc⟩
    apply Meets.ite
    · intro _
      apply Meets.pure
      rintro l (⟨-, -, h⟩ | ⟨-, -, rest, -, h⟩)
      · exact h
      · exact h
    · exact fun h => absurd rfl h

/-- `scp_write.c` always goes on to the end of the file. What was accepted is the file with the
rests of the refused chunks left out, and the file itself if and only if no write was refused. -/
theorem scpWrite_leaves_holes (sys : System σ) (n : ℕ) (s : σ) :
    let run := scpWrite sys n s
    (∀ moment, moment <+: run.log → (upload.sentOf moment).Sublist (upload.takenOf moment)) ∧
      (run.value = .value () → AtEnd run.log ∧
        (upload.sentOf run.log = upload.takenOf run.log ↔
          NoneRefused (fun _ => false) run.log)) := by
  intro run
  have hmeets := @scpWrite_meets _ sys (fun _ _ => True) n
  have hall := hmeets.log Reading.loosely_nil s
  refine ⟨fun moment hm => Reading.sent_sublist (hall.of_prefix hm), fun hv => ?_⟩
  obtain ⟨hend, h⟩ := hmeets.value Reading.loosely_nil hv
  exact ⟨hend, h.all_sent_iff⟩

/-! ## Behind a write that accepted less than the chunk -/

/-- A write that accepts less than it is offered. -/
def Short : Event → Prop
  | .write buf rc => rc.toNat < buf.length
  | _ => False

def SomeFailed (l : List Event) : Prop := ∃ buf rc, .write buf rc ∈ l ∧ rc < 0

theorem SomeFailed.append (h : SomeFailed l) (l' : List Event) : SomeFailed (l ++ l') := by
  obtain ⟨buf, rc, hmem, hneg⟩ := h
  exact ⟨buf, rc, List.mem_append_left _ hmem, hneg⟩

theorem rwChunk_meets {E : Unit → List Event → Prop} (n : ℕ) (mem : List Byte) :
    Meets (upload.LooselyInOrder Short) (upload.Loosely Short mem) (rwChunk sys n mem)
      (fun _ l => upload.Loosely Short [] l ∧ SomeFailed l) E := by
  apply Meets.turns
    (L := fun c : Cursor => upload.Loosely Short ((mem.drop c.ptr).take c.nread))
  · intro l h
    simpa using h
  intro c
  generalize (mem.drop c.ptr).take c.nread = buf
  apply Meets.bind (Q := fun (rc : Accepted buf.length) l => upload.Loosely Short [] l ∧
    (rc.1 < 0 → SomeFailed l))
  · apply Meets.ask
    · exact fun rc l h => loosely_inOrder h
    · intro rc l h
      refine ⟨?_, fun hneg => ⟨buf, rc.1, by simp, hneg⟩⟩
      by_cases hshort : Short (.write buf rc.1)
      · exact h.lose rfl hshort hshort
      · have haccept := h.accept (e := .write buf rc.1) rfl hshort
        rwa [List.drop_eq_nil_of_le (Nat.le_of_not_lt hshort)] at haccept
  intro rc
  apply Meets.ite
  · intro _
    apply Meets.pure
    intro l h
    simpa using h.1
  · intro hneg
    exact Meets.pure fun l h => ⟨h.1, h.2 (Int.not_le.mp hneg)⟩

/-- Between two chunks: nothing waits, and no chunk has been left but behind a write that failed. -/
def Between (l : List Event) : Prop :=
  upload.Loosely Short [] l ∧ (upload.takenOf l ≠ [] → SomeFailed l)

theorem Between.quiet (h : Between l) (he : Quiet e) (hshort : ¬ Short e) : Between (l ++ [e]) := by
  obtain ⟨ho, ht, -⟩ := he.nothing
  refine ⟨h.1.quiet ho ht hshort, fun hsome => SomeFailed.append (h.2 ?_) _⟩
  simpa [ht] using hsome

theorem rwUpload_meets {E : Unit → List Event → Prop} (n : ℕ) :
    Meets (upload.LooselyInOrder Short) Between (rwUpload sys n) (fun _ => Between) E := by
  apply Meets.turns (L := fun _ => Between)
  · exact fun _ h => h
  intro _
  apply Meets.bind (Q := fun mem l => upload.Loosely Short mem.1 l ∧ (mem.1 = [] → Between l))
  · apply Meets.ask
    · exact fun _ _ _ => looselyInOrder_of_quiet rfl
    · intro mem l h
      have htake := h.1.take (e := .fread 1000 mem.1) rfl id
      refine ⟨htake, fun hnil => ?_⟩
      rw [hnil] at htake ⊢
      refine ⟨htake, fun hsome => SomeFailed.append (h.2 ?_) _⟩
      simpa [upload] using hsome
  rintro ⟨mem, hfits⟩
  apply Meets.ite
  · rintro rfl
    exact Meets.pure fun l h => h.2 rfl
  · intro hmem
    apply Meets.bind ((rwChunk_meets n mem).pre fun _ h => h.1)
    intro rc
    have hbetween : ∀ l, upload.Loosely Short [] l ∧ SomeFailed l → Between l :=
      fun l h => ⟨h.1, fun _ => h.2⟩
    apply Meets.ite
    · intro _
      exact Meets.pure hbetween
    · intro _
      apply Meets.bind (Q := fun _ => Between)
      · apply Meets.ask
        · exact fun _ _ _ => looselyInOrder_of_quiet rfl
        · exact fun rc l h => (hbetween l h).quiet (e := .select rc) trivial id
      intro rc
      apply Meets.ite
      · intro _
        apply Meets.bind (Q := fun _ => Between)
        · apply Meets.note
          · exact fun _ _ => looselyInOrder_of_quiet rfl
          · exact fun l h => h.quiet (e := .stderr _) trivial id
        · exact fun _ => Meets.pure fun _ h => h
      · intro _
        exact Meets.pure fun _ h => h

/-- The upload in `sftp_RW_nonblock.c`: what was accepted is the stored file with the rests of short
writes left out, and the file itself if and only if each write accepted all it was offered. Even
then the program ends only if a write fails, or the file is empty. -/
theorem rwUpload_leaves_holes (sys : System σ) (n : ℕ) (s : σ) :
    let run := rwUpload sys n s
    (∀ moment, moment <+: run.log → (upload.sentOf moment).Sublist (upload.takenOf moment)) ∧
      (run.value = .value () →
        (upload.sentOf run.log = upload.takenOf run.log ↔ ∀ e ∈ run.log, ¬ Short e) ∧
        (upload.takenOf run.log ≠ [] → SomeFailed run.log)) := by
  intro run
  have hmeets := @rwUpload_meets _ sys (fun _ _ => True) n
  have hstart : Between [] := ⟨Reading.loosely_nil, fun h => absurd rfl h⟩
  have hall := hmeets.log hstart s
  refine ⟨fun moment hm => Reading.sent_sublist (hall.of_prefix hm), fun hv => ?_⟩
  obtain ⟨h, hfailed⟩ := hmeets.value hstart hv
  exact ⟨h.all_sent_iff, hfailed⟩

end CloudSsh.LossyUploads
