import CloudSsh.ReturningPrograms
import CloudSsh.WindowedUploads

/-!
# Uploads that come to an end

If the file has an end, and every write accepts something sooner or later, the uploads end, and the
whole file has been sent.
-/
namespace CloudSsh.CompletedUploads
open EnvironmentPrograms InterruptedPrograms BufferedTransfers ReturningPrograms
open FileUploads UploadedFiles WindowedUploads
open RelayLoop (Byte)

variable {σ : Type} {sys : System σ} {again : Int → Bool} {left : σ → ℕ} {s t : σ}

/-- The system gets on: `left` bounds the chunks of the file that are still to be read and the tries
of writes that would block. A write that does not, of something, accepts some of it. -/
structure GetsOn (again : Int → Bool) (sys : System σ) (left : σ → ℕ) : Prop where
  fread : ∀ size s, left (sys.fread size s).2 ≤ left s
  chunk : ∀ size s, (sys.fread size s).1.1 ≠ [] → left (sys.fread size s).2 < left s
  write : ∀ buf s, buf ≠ [] →
    (0 < (sys.write buf s).1.1 ∧ left (sys.write buf s).2 ≤ left s) ∨
    (again (sys.write buf s).1.1 = true ∧
      left (sys.waitsocket (sys.write buf s).2).2 < left s)

/-- Every write accepts something, or would block. -/
def Accepting (again : Int → Bool) : Event → Prop
  | .write _ rc => 0 < rc ∨ again rc = true
  | _ => True

theorem Accepting.not_refused {e : Event} (h : Accepting again e) : ¬ Refused again e := by
  cases e with
  | write buf rc =>
    rintro ⟨hneg, hagain⟩
    rcases h with h | h
    · omega
    · rw [hagain] at h
      cases h
  | _ => exact id

theorem fread_returns (h : GetsOn again sys left) (size : ℕ) (s : σ) :
    Returns (Accepting again) (fun _ => fread sys size) s
      (fun mem t => left t ≤ left s ∧ (mem.1 ≠ [] → left t < left s)) fun _ _ => False :=
  Returns.ask trivial ⟨h.fread size s, h.chunk size s⟩

/-- A way to write that accepts something in the end. -/
def WritesOn (again : Int → Bool) (left : σ → ℕ)
    (W : ℕ → (buf : List Byte) → Upload σ (Accepted buf.length)) : Prop :=
  ∀ buf s, buf ≠ [] → Returns (Accepting again) (fun n => W n buf) s
    (fun rc t => 0 < rc.1 ∧ left t ≤ left s) fun _ _ => False

theorem write_writesOn (h : GetsOn (fun _ => false) sys left) :
    WritesOn (fun _ => false) left fun _ => write sys := by
  intro buf s hbuf
  rcases h.write buf s hbuf with hw | ⟨hw, -⟩
  · exact Returns.ask (.inl hw.1) hw
  · cases hw

theorem waitsocket_returns {Good : Event → Prop} (hgood : ∀ rc, Good (.waitsocket rc)) (s : σ) :
    Returns Good (fun _ => (ask sys.waitsocket .waitsocket : Upload σ Int)) s
      (fun _ t => t = (sys.waitsocket s).2) fun _ _ => False :=
  Returns.ask (hgood _) rfl

/-- One try of a write, with the pause behind one that would block. -/
theorem try_returns (h : GetsOn eagain sys left) {buf : List Byte} (hbuf : buf ≠ []) {ι γ : Type}
    (next : ι) (done : Accepted buf.length → γ) (t : σ) :
    Returns (Accepting eagain) (fun _ => (do
        let rc ← ask (sys.write buf) fun rc => .write buf rc.1
        if wouldBlock rc then
          let _ ← ask sys.waitsocket .waitsocket
          pure (.inl next)
        else
          pure (.inr (done rc)) : Upload σ (ι ⊕ γ))) t
      (fun r u => r.elim (fun _ => left u < left t)
        (fun a => ∃ rc, a = done rc ∧ 0 < rc.1 ∧ left u ≤ left t)) fun _ _ => False := by
  have hwrite : Returns (Accepting eagain)
      (fun _ => (ask (sys.write buf) fun rc => .write buf rc.1 : Upload σ (Accepted buf.length))) t
      (fun rc u => rc = (sys.write buf t).1 ∧ u = (sys.write buf t).2) fun _ _ => False := by
    apply Returns.ask _ ⟨rfl, rfl⟩
    rcases h.write buf t hbuf with hw | hw
    · exact .inl hw.1
    · exact .inr hw.1
  apply Returns.bind hwrite
  rintro rc u ⟨rfl, rfl⟩
  apply Returns.ite
  · intro hblocks
    apply Returns.bind (waitsocket_returns (fun _ => trivial) _)
    rintro _ v rfl
    apply Returns.pure
    rcases h.write buf t hbuf with hw | hw
    · have hcode := of_decide_eq_true hblocks
      rw [hcode] at hw
      exact absurd hw.1 (by decide)
    · exact hw.2
  · intro hblocks
    apply Returns.pure
    rcases h.write buf t hbuf with hw | hw
    · exact ⟨_, rfl, hw⟩
    · exact absurd hw.1 hblocks

theorem writeWaiting_writesOn (h : GetsOn eagain sys left) :
    WritesOn eagain left fun n => writeWaiting sys n := by
  intro buf s hbuf
  apply Returns.turns (fun _ => left) (fun _ t => left t ≤ left s) _ (Nat.le_refl _)
  intro _ t ht
  apply (try_returns h hbuf () id t).mono
  rintro (_ | rc) u hu
  · exact ⟨Nat.le_trans (Nat.le_of_lt hu) ht, hu⟩
  · obtain ⟨rc, rfl, hrc, hu⟩ := hu
    exact ⟨hrc, Nat.le_trans hu ht⟩

theorem writeForgetting_returns (h : GetsOn eagain sys left) (buf : List Byte) (prev : ℕ) (s : σ)
    (hbuf : buf ≠ []) : Returns (Accepting eagain) (fun n => writeForgetting sys n buf prev) s
      (fun r t => 0 < r.1.1 ∧ left t ≤ left s) fun _ _ => False := by
  apply Returns.turns (fun _ => left) (fun _ t => left t ≤ left s) _ (Nat.le_refl _)
  intro prev t ht
  apply (try_returns h hbuf 0 (fun rc => (rc, prev)) t).mono
  rintro (_ | r) u hu
  · exact ⟨Nat.le_trans (Nat.le_of_lt hu) ht, hu⟩
  · obtain ⟨rc, rfl, hrc, hu⟩ := hu
    exact ⟨hrc, Nat.le_trans hu ht⟩

/-! ## The inner loops -/

/-- What an inner loop does behind a write that accepted something. -/
theorem chunk_turn {Good : Event → Prop} {mem : List Byte} {c : Cursor} (hc : c.At mem) {α : Type}
    {rc : Int} (hcount : rc ≤ c.nread) (hrc : 0 < rc) (next : Cursor → α)
    {onError : ℕ → Upload σ Unit} (t : σ) :
    Returns Good
      (fun n => (if rc < 0 then do
        onError n
        pure (.inr (c.nread, rc))
      else if c.nread - rc.toNat ≠ 0 then
        pure (.inl (next ⟨c.ptr + rc.toNat, c.nread - rc.toNat⟩))
      else
        pure (.inr (0, rc)) : Upload σ (α ⊕ (ℕ × Int)))) t
      (fun r u => u = t ∧ r.elim
        (fun i => ∃ c' : Cursor, i = next c' ∧ c'.At mem ∧ c'.nread < c.nread)
        (fun r => r.1 = 0 ∧ 0 < r.2)) fun _ _ => False := by
  obtain ⟨hpos, hend⟩ := hc
  apply Returns.ite
  · intro hneg
    omega
  · intro _
    apply Returns.ite
    · intro hmore
      apply Returns.pure
      refine ⟨rfl, _, rfl, ?_, ?_⟩
      · constructor <;> simp only <;> omega
      · simp only
        omega
    · intro _
      exact Returns.pure ⟨rfl, rfl, hrc⟩

theorem writeChunk_returns {W : ℕ → (buf : List Byte) → Upload σ (Accepted buf.length)}
    (hW : WritesOn again left W) (onError : Int → Upload σ Unit) {mem : List Byte} (hmem : mem ≠ [])
    (s : σ) : Returns (Accepting again) (fun n => writeChunk (W n) onError n mem) s
      (fun r t => (r.1 = 0 ∧ 0 < r.2) ∧ left t ≤ left s) fun _ _ => False := by
  apply Returns.turns (fun c _ => c.nread) (fun c t => c.At mem ∧ left t ≤ left s) _
    ⟨.start hmem, Nat.le_refl _⟩
  rintro c t ⟨hc, ht⟩
  apply Returns.bind (hW _ t hc.window_ne_nil)
  rintro rc u ⟨hrc, hu⟩
  apply (chunk_turn hc (Cursor.count_le rc) hrc id u).mono
  rintro (c' | r) v ⟨rfl, hr⟩
  · obtain ⟨c'', rfl, hat, hlt⟩ := hr
    exact ⟨⟨hat, by omega⟩, hlt⟩
  · exact ⟨hr, by omega⟩

theorem writeChunkNonblock_returns (h : GetsOn eagain sys left) (total : ℕ) {mem : List Byte}
    (hmem : mem ≠ []) (s : σ) :
    Returns (Accepting eagain) (fun n => writeChunkNonblock sys n total mem) s
      (fun r t => (r.1 = 0 ∧ 0 < r.2) ∧ left t ≤ left s) fun _ _ => False := by
  apply Returns.turns (fun i _ => i.1.nread) (fun i t => i.1.At mem ∧ left t ≤ left s) _
    ⟨.start hmem, Nat.le_refl _⟩
  rintro ⟨c, prev⟩ t ⟨hc, ht⟩
  apply Returns.bind (writeForgetting_returns h _ prev t hc.window_ne_nil)
  rintro ⟨rc, prev'⟩ u ⟨hrc, hu⟩
  apply (chunk_turn hc (Cursor.count_le rc) hrc (fun c' => (c', c.nread)) u).mono
  rintro (i | r) v ⟨rfl, hr⟩
  · obtain ⟨c', rfl, hat, hlt⟩ := hr
    exact ⟨⟨hat, by omega⟩, hlt⟩
  · exact ⟨hr, by omega⟩

/-! ## The outer loops -/

theorem uploadLoop_returns (h : GetsOn again sys left) (size : ℕ)
    {chunk : ℕ → ℕ → List Byte → Upload σ (ℕ × Int)} {goOn : ℕ × Int → Bool}
    (hchunk : ∀ total mem s, mem ≠ [] → Returns (Accepting again) (fun n => chunk n total mem) s
      (fun r t => (r.1 = 0 ∧ 0 < r.2) ∧ left t ≤ left s) fun _ _ => False)
    (hgo : ∀ rc, 0 < rc → goOn (0, rc) = true) (s : σ) :
    Returns (Accepting again) (fun n => uploadLoop sys size (chunk n) goOn n) s (fun _ _ => True)
      fun _ _ => False := by
  apply Returns.turns (fun _ => left) (fun _ _ => True) _ trivial
  intro total t _
  apply Returns.bind (fread_returns h size t)
  rintro mem u ⟨-, hu⟩
  apply Returns.ite
  · exact fun _ => Returns.pure trivial
  · intro hmem
    apply Returns.bind (hchunk _ mem.1 u hmem)
    rintro ⟨nread, rc⟩ v ⟨⟨rfl, hrc⟩, hv⟩
    apply Returns.ite
    · intro _
      have hlt := hu hmem
      exact Returns.pure ⟨trivial, by omega⟩
    · exact fun hstop => absurd (hgo rc hrc) hstop

/-- The window of `sftp_write_sliding.c` grows only while the file gets shorter. -/
theorem sliding_returns (h : GetsOn eagain sys left) (s : σ) :
    Returns (Accepting eagain) (fun n => sftpWriteSliding sys n) s (fun _ _ => True)
      fun _ _ => False := by
  apply Returns.turns (fun window t => left t * (slidingSize + 1) + window.length) (fun window _ =>
    window.length ≤ slidingSize) _ (Nat.zero_le _)
  intro window t hwindow
  apply Returns.bind (fread_returns h _ t)
  rintro ⟨mem, hmem⟩ u ⟨hle, hlt⟩
  apply Returns.ite
  · exact fun _ => Returns.pure trivial
  · intro hsome
    have hne : window ++ mem ≠ [] := by
      intro hnil
      exact hsome (List.append_eq_nil_iff.mp hnil).symm
    apply Returns.bind (writeWaiting_writesOn h (window ++ mem) u hne)
    rintro rc v ⟨hrc, hv⟩
    apply Returns.ite
    · intro hneg
      omega
    · intro _
      apply Returns.ite
      · intro _
        apply Returns.pure
        have hcount := rc.2
        have happend : (window ++ mem).length = window.length + mem.length := List.length_append
        have hlen : ((window ++ mem).drop rc.1.toNat).length < window.length + mem.length := by
          rw [List.length_drop]
          omega
        refine ⟨?_, ?_⟩
        · change ((window ++ mem).drop rc.1.toNat).length ≤ slidingSize
          omega
        change left v * (slidingSize + 1) + ((window ++ mem).drop rc.1.toNat).length <
          left t * (slidingSize + 1) + window.length
        by_cases hnil : mem = []
        · have hmul := Nat.mul_le_mul_right (slidingSize + 1) (Nat.le_trans hv hle)
          have hzero : mem.length = 0 := List.length_eq_zero_iff.mpr hnil
          omega
        · have hmul : (left v + 1) * (slidingSize + 1) ≤ left t * (slidingSize + 1) :=
            Nat.mul_le_mul_right _ (Nat.lt_of_le_of_lt hv (hlt hnil))
          rw [Nat.succ_mul] at hmul
          omega
      · intro _
        exact Returns.pure trivial

/-! ## Whole files -/

/-- From some budget on, the outcome is the same: the program returns, it has come to the end of the
file, and everything it read was accepted. -/
def SendsAll (P : ℕ → Upload σ Unit) (s : σ) : Prop :=
  ∃ n₀ o, (∀ n, n₀ ≤ n → P n s = o) ∧ o.value = .value () ∧ AtEnd o.log ∧
    upload.sentOf o.log = upload.takenOf o.log

theorem sendsAll_of_returns {P : ℕ → Upload σ Unit}
    (h : Returns (Accepting again) P s (fun _ _ => True) fun _ _ => False)
    (hsends : ∀ n, (∀ e ∈ (P n s).log, Accepting again e) → (P n s).value = .value () →
      AtEnd (P n s).log ∧ upload.sentOf (P n s).log = upload.takenOf (P n s).log) :
        SendsAll P s := by
  obtain ⟨n₀, ⟨v, t, l⟩, hrun, hlog, hend⟩ := h
  cases v with
  | cut => exact hend.elim
  | left x => exact hend.elim
  | value a =>
    have hall := hsends n₀
    rw [hrun n₀ (Nat.le_refl _)] at hall
    exact ⟨n₀, _, hrun, rfl, hall hlog rfl⟩

theorem whole_of_sends {value : Ending Unit Unit} {l : List Event} (h : Sends again value l)
    (hlog : ∀ e ∈ l, Accepting again e) (hv : value = .value ()) :
    AtEnd l ∧ upload.sentOf l = upload.takenOf l := by
  have hnone : NoneRefused again l := fun e he => (hlog e he).not_refused
  exact ⟨h.atEnd hv hnone, (h.whole_iff hv).mpr hnone⟩

theorem oneByte_getsOn (blocks : Bool) :
    GetsOn (fun rc => blocks && eagain rc) (oneByte blocks) (3 - ·) where
  fread size s := by
    by_cases h : 1 ≤ size ∧ s = 0 <;> simp [oneByte, h]
  chunk size s hmem := by
    by_cases h : 1 ≤ size ∧ s = 0
    · simp [oneByte, h]
    · simp [oneByte, h] at hmem
  write buf s hbuf := by
    have hpos : 0 < buf.length := List.length_pos_iff.mpr hbuf
    by_cases h : blocks = true ∧ s = 1
    · simp [oneByte, h, eagain]
    · simp [oneByte, h, hpos]

/-- Over a connection on which every write accepts something, the blocking program returns with the
whole file sent. -/
theorem blocking_sends_all (h : GetsOn (fun _ => false) sys left) (s : σ) :
    SendsAll (sftpWrite sys) s := by
  apply sendsAll_of_returns
  · apply uploadLoop_returns h
    · exact fun _ mem s hmem => writeChunk_returns (write_writesOn h) quietly hmem s
    · exact fun rc hrc => decide_eq_true hrc
  · intro n hlog hv
    exact whole_of_sends (sftpWrite_sends sys n s) hlog hv

theorem blocking_sends_all_oneByte : SendsAll (sftpWrite (oneByte false)) 0 :=
  blocking_sends_all (oneByte_getsOn false) 0

end CloudSsh.CompletedUploads
