import CloudSsh.UploadedFiles

/-!
# Uploads through one window

`sftp_write_sliding.c` moves what was not accepted to the front of its buffer and reads more of the
file behind it. The buffer is never overrun, and the order of the file is kept.
-/
namespace CloudSsh.WindowedUploads
open EnvironmentPrograms InterruptedPrograms BufferedTransfers FileUploads UploadedFiles
open RelayLoop (Byte libssh2ErrorEagain)

variable {σ : Type} {sys : System σ} {p : List Byte} {l : List Event} {e : Event}

/-- What is offered is the whole window, and more is read into the free part of the buffer only. -/
structure Sliding (before : List Event) (e : Event) : Prop where
  offers : upload.InOrder before e
  reads : ∀ size mem, e = .fread size mem →
    ∃ window, upload.Pending window before ∧ window.length + size = slidingSize ∧ mem.length ≤ size

/-- A write that accepts nothing, other than with would-block. -/
def Stalled : Event → Prop
  | .write _ rc => rc ≤ 0 ∧ eagain rc = false
  | _ => False

def NoneStalled (l : List Event) : Prop := ∀ e ∈ l, ¬ Stalled e

/-- `p` is in the window, and nothing has stalled. -/
structure Window (p : List Byte) (l : List Event) : Prop where
  pending : upload.Pending p l
  flows : NoneStalled l
  fits : p.length ≤ slidingSize

theorem noneStalled_concat (he : ¬ Stalled e) : NoneStalled (l ++ [e]) ↔ NoneStalled l := by
  simp [NoneStalled, or_imp, forall_and, he]

theorem noneStalled_write {buf : List Byte} {rc : Int} :
    NoneStalled (l ++ [.write buf rc]) ↔ NoneStalled l ∧ ¬ (rc ≤ 0 ∧ eagain rc = false) := by
  simp only [NoneStalled, List.forall_mem_append, List.forall_mem_singleton]
  exact Iff.rfl

/-- How the upload ends: with the file, or with something left in the window. -/
def Ends (l : List Event) : Prop :=
  (AtEnd l ∧ upload.Pending [] l ∧ NoneStalled l) ∨
    ∃ rest, rest ≠ [] ∧ upload.Pending rest l ∧ ¬ NoneStalled l

theorem Ends.whole_iff (h : Ends l) : upload.sentOf l = upload.takenOf l ↔ NoneStalled l := by
  rcases h with ⟨-, hp, hr⟩ | ⟨rest, hrest, hp, hr⟩
  · exact iff_of_true hp.all_sent hr
  · exact iff_of_false (hp.ne hrest) hr

theorem fread_window {E : Unit → List Event → Prop} (window : List Byte)
    (hfits : window.length ≤ slidingSize) :
    Meets Sliding (Window window) (fread sys (slidingSize - window.length))
      (fun mem l => Window (window ++ mem.1) l ∧ (mem.1 = [] → AtEnd l)) E := by
  apply Meets.ask
  · intro mem l h
    refine ⟨Reading.inOrder_of_none rfl, ?_⟩
    intro size' mem' he
    obtain ⟨rfl, rfl⟩ : slidingSize - window.length = size' ∧ mem.1 = mem' := by simpa using he
    exact ⟨window, h.pending, by omega, mem.2⟩
  · intro mem l h
    refine ⟨⟨h.pending.take rfl, (noneStalled_concat id).mpr h.flows, ?_⟩, ?_⟩
    · have hmem := mem.2
      rw [List.length_append]
      omega
    · intro hnil
      rw [hnil]
      exact ⟨_, List.suffix_append _ _⟩

/-- A write of the window, made until it would not block. -/
theorem writeWaiting_window {E : Unit → List Event → Prop} (n : ℕ)
    (window : List Byte) : Meets Sliding (Window window) (writeWaiting sys n window)
      (fun rc l => if rc.1 ≤ 0 then upload.Pending window l ∧ ¬ NoneStalled l
        else Window (window.drop rc.1.toNat) l) E := by
  apply Meets.turns (L := fun _ => Window window)
  · exact fun _ h => h
  intro _
  apply Meets.bind (Q := fun (rc : Accepted window.length) l =>
    if wouldBlock rc then Window window l
    else if rc.1 ≤ 0 then upload.Pending window l ∧ ¬ NoneStalled l
    else Window (window.drop rc.1.toNat) l)
  · apply Meets.ask
    · intro rc l h
      exact ⟨h.pending.inOrder rfl, by simp⟩
    · intro rc l h
      have haccept := h.pending.accept (e := .write window rc.1) rfl
      by_cases hblocks : wouldBlock rc = true
      · have hzero : rc.1.toNat = 0 := by rw [of_decide_eq_true hblocks]; rfl
        rw [hzero] at haccept
        rw [if_pos hblocks]
        have hagain : eagain rc.1 = true := hblocks
        exact ⟨haccept, noneStalled_write.mpr ⟨h.flows, by simp [hagain]⟩, h.fits⟩
      · rw [if_neg hblocks]
        have hagain : eagain rc.1 = false := by simpa [eagain, wouldBlock] using hblocks
        split
        · rename_i hle
          rw [Int.toNat_of_nonpos hle] at haccept
          exact ⟨haccept, fun hall => (noneStalled_write.mp hall).2 ⟨hle, hagain⟩⟩
        · rename_i hlt
          refine ⟨haccept, noneStalled_write.mpr ⟨h.flows, fun hs => hlt hs.1⟩, ?_⟩
          exact (List.drop_sublist _ _).length_le.trans h.fits
  intro rc
  apply Meets.ite
  · intro hblocks
    simp only [hblocks, if_true]
    apply Meets.bind (Q := fun _ => Window window)
    · apply Meets.ask
      · exact fun rc l _ => ⟨Reading.inOrder_of_none rfl, by simp⟩
      · exact fun rc l h => ⟨h.pending.quiet rfl rfl, (noneStalled_concat id).mpr h.flows, h.fits⟩
    · exact fun _ => Meets.pure fun _ h => h
  · intro hblocks
    simp only [hblocks]
    exact Meets.pure fun _ h => h

theorem sftpWriteSliding_meets {E : Unit → List Event → Prop} (n : ℕ) :
    Meets Sliding (Window []) (sftpWriteSliding sys n) (fun _ => Ends) E := by
  apply Meets.turns (L := Window)
  · exact fun _ h => h
  intro window
  apply Meets.pre (P := fun l => window.length ≤ slidingSize ∧ Window window l)
    _ fun l h => ⟨h.fits, h⟩
  apply Meets.assuming
  intro hfits
  apply Meets.bind (fread_window window hfits)
  rintro ⟨mem, hmem⟩
  apply Meets.ite
  · rintro ⟨rfl, rfl⟩
    apply Meets.pure
    rintro l ⟨h, hend⟩
    exact .inl ⟨hend rfl, h.pending, h.flows⟩
  · intro hsome
    have hne : window ++ mem ≠ [] := by
      intro hnil
      exact hsome (List.append_eq_nil_iff.mp hnil).symm
    apply Meets.bind ((writeWaiting_window n _).pre fun _ h => h.1)
    intro rc
    apply Meets.ite
    · intro hneg
      simp only [Int.le_of_lt hneg, if_true]
      exact Meets.pure fun l h => .inr ⟨_, hne, h⟩
    · intro _
      apply Meets.ite
      · intro hpos
        simp only [Int.not_le.mpr hpos, if_false]
        exact Meets.pure fun _ h => h
      · intro hzero
        simp only [Int.not_lt.mp hzero, if_true]
        exact Meets.pure fun l h => .inr ⟨_, hne, h⟩

/-- At every moment, what was read and not accepted fits the buffer. -/
theorem window_fits (h : Throughout Sliding l) :
    ∃ window, upload.Pending window l ∧ window.length ≤ slidingSize := by
  induction l using List.reverseRecOn with
  | nil => exact ⟨[], rfl, Nat.zero_le _⟩
  | append_singleton l e ih =>
    obtain ⟨window, hp, hfits⟩ := ih h.init
    have he := h.last
    cases e with
    | fread size mem =>
      obtain ⟨window', hp', hlen, hmem⟩ := he.reads size mem rfl
      refine ⟨window' ++ mem, hp'.take rfl, ?_⟩
      rw [List.length_append]
      omega
    | write buf rc =>
      obtain rfl := hp.unique (he.offers buf _ rfl)
      exact ⟨_, hp.accept rfl, (List.drop_sublist _ _).length_le.trans hfits⟩
    | _ => exact ⟨window, hp.quiet rfl rfl, hfits⟩

theorem window_start : Window [] [] := ⟨rfl, by simp [NoneStalled], Nat.zero_le _⟩

theorem sliding_ends {n : ℕ} {s : σ} (hv : (sftpWriteSliding sys n s).value = .value ()) :
    Ends (sftpWriteSliding sys n s).log :=
  (sftpWriteSliding_meets (E := fun _ _ => True) n).value window_start hv

theorem Ends.atEnd (h : Ends l) (hflows : NoneStalled l) : AtEnd l := by
  rcases h with ⟨hend, -⟩ | ⟨rest, -, -, hstalled⟩
  · exact hend
  · exact absurd hflows hstalled

/-- The buffer is never overrun, what is offered is what has been read and not been accepted, and
the whole file is sent exactly if no write accepts nothing, which is the only other way to stop. -/
theorem sliding_in_order (sys : System σ) (n : ℕ) (s : σ) :
    let run := sftpWriteSliding sys n s
    Throughout Sliding run.log ∧
      (∀ moment, moment <+: run.log →
        ∃ window, upload.Pending window moment ∧ window.length ≤ slidingSize) ∧
      (run.value = .value () →
        (upload.sentOf run.log = upload.takenOf run.log ↔ NoneStalled run.log) ∧
        (NoneStalled run.log → AtEnd run.log)) := by
  intro run
  have hall := (@sftpWriteSliding_meets _ sys (fun _ _ => True) n).log window_start s
  refine ⟨hall, fun moment hm => window_fits (hall.of_prefix hm), fun hv => ?_⟩
  exact ⟨(sliding_ends hv).whole_iff, (sliding_ends hv).atEnd⟩

end CloudSsh.WindowedUploads
