import CloudSsh.ReturningPrograms
import CloudSsh.DownloadedFiles

/-!
# Downloads that come to an end

Over a connection that brings its bytes sooner or later, the downloads end, and what they have
handed on is what was brought: the size of the file for the SCP programs, everything for the
others.
-/
namespace CloudSsh.CompletedDownloads
open EnvironmentPrograms InterruptedPrograms BufferedTransfers ReturningPrograms
open FileDownloads DownloadedFiles
open RelayLoop (Byte ReadResult libssh2ErrorEagain)

variable {σ : Type} {sys : System σ} {again : Int → Bool} {pending : σ → List Byte} {left : σ → ℕ}
variable {s t : σ}

/-- The connection brings `pending`. As long as there is any, a read gets some of it, or returns a
code after which it is tried again, `left` times at most. -/
structure Brings (again : Int → Bool) (sys : System σ) (pending : σ → List Byte) (left : σ → ℕ) :
    Prop where
  read : ∀ len s, pending s = (sys.read len s).1.bytes ++ pending (sys.read len s).2
  wait : ∀ len s, left (sys.read len s).2 ≤ left s
  on : ∀ len s, 0 < len → pending s ≠ [] → 0 < (sys.read len s).1.count ∨
    (again (sys.read len s).1.count = true ∧ left (sys.read len s).2 < left s)
  out : ∀ k mem s, pending (sys.out k mem s) = pending s ∧ left (sys.out k mem s) ≤ left s
  waitsocket : ∀ s, pending (sys.waitsocket s).2 = pending s ∧ left (sys.waitsocket s).2 ≤ left s
  select : ∀ s, pending (sys.select s).2 = pending s ∧ left (sys.select s).2 ≤ left s

/-! ## What is received is what was pending -/

/-- The bytes that the log received are those that no longer are pending. -/
def Received (pending : σ → List Byte) (s : σ) (l : List Event) (t : σ) : Prop :=
  pending s = receivedOf l ++ pending t

theorem received_path (pending : σ → List Byte) : Path (Received pending) where
  nil _ := rfl
  append h h' := by
    rw [Received] at h h' ⊢
    rw [receivedOf, List.flatMap_append, List.append_assoc, h, h']
    rfl

section Leads

variable (h : Brings again sys pending left)
include h

theorem read_leads (size : ℕ) : Leads (Received pending) (read sys size) := by
  apply Leads.ask
  intro s
  have hread := h.read size s
  simpa [Received, receivedOf, receivedIn] using hread

theorem out_leads (k : Sink) (mem : List Byte) : Leads (Received pending) (out sys k mem) := by
  apply Leads.ask
  intro s
  have hout := (h.out k mem s).1
  simpa [Received, receivedOf, receivedIn] using hout.symm

theorem waitsocket_leads : Leads (Received pending)
    (ask sys.waitsocket .waitsocket : Download σ Int) := by
  apply Leads.ask
  intro s
  have hwait := (h.waitsocket s).1
  simpa [Received, receivedOf, receivedIn] using hwait.symm

omit h in
theorem note_leads (text : String) :
    Leads (Received pending) (note (.stderr text) : Download σ Unit) :=
  Leads.ask fun _ => rfl

theorem scp_leads (st_size : Int) (n : ℕ) : Leads (Received pending) (scp sys st_size n) := by
  have hpath := received_path pending
  apply Leads.turns hpath
  intro got
  apply Leads.ite
  · apply Leads.bind hpath (read_leads h _)
    intro r
    apply Leads.ite
    · exact Leads.bind hpath (out_leads h _ _) fun _ => Leads.pure hpath _
    apply Leads.ite
    · exact Leads.bind hpath (note_leads _) fun _ => Leads.pure hpath _
    · exact Leads.pure hpath _
  · exact Leads.pure hpath _

theorem drain_leads {γ : Type} (size : γ → ℕ) (add : γ → Int → γ)
    {hand : {len : ℕ} → ReadResult len → Download σ Unit}
    (hhand : ∀ {len} (r : ReadResult len), Leads (Received pending) (hand r)) (n : ℕ) (got : γ) :
    Leads (Received pending) (drain sys size add hand n got) := by
  have hpath := received_path pending
  apply Leads.turns hpath
  intro got
  apply Leads.bind hpath (read_leads h _)
  intro r
  apply Leads.bind hpath (hhand r)
  intro _
  exact Leads.ite (Leads.pure hpath _) (Leads.pure hpath _)

theorem toStdout_leads {len : ℕ} (r : ReadResult len) : Leads (Received pending) (toStdout sys r) :=
  Leads.ite (out_leads h _ _) (Leads.pure (received_path pending) _)

theorem toStderr_leads {len : ℕ} (r : ReadResult len) :
    Leads (Received pending) (toStderr sys r) := by
  have hpath := received_path pending
  apply Leads.ite
  · apply Leads.bind hpath (note_leads _)
    intro _
    exact Leads.bind hpath (out_leads h _ _) fun _ => note_leads _
  · exact Leads.ite (note_leads _) (Leads.pure hpath _)

theorem toStorage_leads {len : ℕ} (r : ReadResult len) :
    Leads (Received pending) (toStorage sys r) := by
  have hpath := received_path pending
  apply Leads.bind hpath (note_leads _)
  intro _
  apply Leads.ite
  · exact Leads.bind hpath (out_leads h _ _) fun _ => out_leads h _ _
  · exact Leads.pure hpath _

theorem scpNonblock_leads (st_size : Int) (n : ℕ) :
    Leads (Received pending) (scpNonblock sys st_size n) := by
  have hpath := received_path pending
  apply Leads.turns hpath
  intro got
  apply Leads.ite
  · apply Leads.bind hpath (drain_leads h _ _ (toStdout_leads h) n got)
    rintro ⟨got, rc⟩
    apply Leads.ite
    · exact Leads.bind hpath (waitsocket_leads h) fun _ => Leads.pure hpath _
    · exact Leads.pure hpath _
  · exact Leads.pure hpath _

theorem readWaiting_leads (size n : ℕ) : Leads (Received pending) (readWaiting sys size n) := by
  have hpath := received_path pending
  apply Leads.turns hpath
  intro _
  apply Leads.bind hpath (read_leads h size)
  intro r
  apply Leads.ite
  · exact Leads.bind hpath (waitsocket_leads h) fun _ => Leads.pure hpath _
  · exact Leads.pure hpath _

theorem handOn_leads {size : ℕ} (r : ReadResult size) : Leads (Received pending)
    (if r.count > 0 then do
      out sys .stdout r.bytes
      pure (.inl ())
    else
      pure (.inr ()) : Download σ (Unit ⊕ Unit)) := by
  have hpath := received_path pending
  apply Leads.ite
  · exact Leads.bind hpath (out_leads h _ _) fun _ => Leads.pure hpath _
  · exact Leads.pure hpath _

theorem sftp_leads (n : ℕ) : Leads (Received pending) (sftp sys n) := by
  have hpath := received_path pending
  apply Leads.turns hpath
  intro _
  apply Leads.bind hpath (note_leads _)
  intro _
  exact Leads.bind hpath (read_leads h _) (handOn_leads h)

theorem sftpNonblock_leads (n : ℕ) : Leads (Received pending) (sftpNonblock sys n) := by
  have hpath := received_path pending
  apply Leads.turns hpath
  intro _
  exact Leads.bind hpath (readWaiting_leads h _ n) (handOn_leads h)

theorem rwDownload_leads (n : ℕ) : Leads (Received pending) (rwDownload sys n) := by
  have hpath := received_path pending
  apply Leads.turns hpath
  intro _
  apply Leads.bind hpath (drain_leads h _ _ (toStorage_leads h) n ())
  rintro ⟨_, rc⟩
  apply Leads.ite
  · exact Leads.pure hpath _
  · apply Leads.bind hpath
    · apply Leads.ask
      intro s
      have hselect := (h.select s).1
      simpa [Received, receivedOf, receivedIn] using hselect.symm
    intro rc
    apply Leads.ite
    · exact Leads.bind hpath (note_leads _) fun _ => Leads.pure hpath _
    · exact Leads.pure hpath _

theorem execOutput_leads (n : ℕ) : Leads (Received pending) (execOutput sys n) := by
  have hpath := received_path pending
  apply Leads.turns hpath
  intro bytecount
  apply Leads.bind hpath (drain_leads h _ _ (toStderr_leads h) n bytecount)
  rintro ⟨bytecount, rc⟩
  apply Leads.ite
  · exact Leads.bind hpath (waitsocket_leads h) fun _ => Leads.pure hpath _
  · exact Leads.pure hpath _

end Leads

/-! ## The calls -/

/-- No more is pending than before, and no more tries are left. -/
def Later (pending : σ → List Byte) (left : σ → ℕ) (s t : σ) : Prop :=
  pending t = pending s ∧ left t ≤ left s

/-- What bounds the reads that are still to come. -/
def budget (pending : σ → List Byte) (left : σ → ℕ) (s : σ) : ℕ := (pending s).length + left s

theorem Later.trans {u : σ} (h : Later pending left s t) (h' : Later pending left t u) :
    Later pending left s u := ⟨h'.1.trans h.1, Nat.le_trans h'.2 h.2⟩

theorem Later.budget_le (h : Later pending left s t) :
    budget pending left t ≤ budget pending left s := by
  obtain ⟨hpending, hleft⟩ := h
  rw [budget, budget, hpending]
  omega

def Always (_ : Event) : Prop := True

theorem out_returns (h : Brings again sys pending left) (k : Sink) (mem : List Byte) (s : σ) :
    Returns Always (fun _ => out sys k mem) s
      (fun _ t => Later pending left s t) fun _ _ => False :=
  Returns.ask trivial (h.out k mem s)

theorem note_returns (pending : σ → List Byte) (left : σ → ℕ) (text : String) (s : σ) :
    Returns Always (fun _ => (note (.stderr text) : Download σ Unit)) s
      (fun _ t => Later pending left s t) fun _ _ => False :=
  Returns.note trivial ⟨rfl, Nat.le_refl _⟩

theorem waitsocket_returns (h : Brings again sys pending left) (s : σ) :
    Returns Always (fun _ => (ask sys.waitsocket .waitsocket : Download σ Int)) s
      (fun _ t => Later pending left s t) fun _ _ => False :=
  Returns.ask trivial (h.waitsocket s)

/-- A read gets what its answer says, and less is to come unless nothing was pending,
or asked for. -/
structure Read (again : Int → Bool) (pending : σ → List Byte) (left : σ → ℕ) (size : ℕ) (s : σ)
    (r : ReadResult size) (t : σ) : Prop where
  bytes : pending s = r.bytes ++ pending t
  wait : left t ≤ left s
  on : 0 < size → pending s ≠ [] → 0 < r.count ∨ (again r.count = true ∧ left t < left s)

theorem read_returns (h : Brings again sys pending left) (size : ℕ) (s : σ) :
    Returns Always (fun _ => read sys size) s (Read again pending left size s) fun _ _ => False :=
  Returns.ask trivial ⟨h.read size s, h.wait size s, h.on size s⟩

variable {size : ℕ} {r : ReadResult size}

theorem Read.length (h : Read again pending left size s r t) :
    (pending s).length = r.count.toNat + (pending t).length := by
  rw [h.bytes, List.length_append, r.count_toNat]

theorem Read.none (h : Read again pending left size s r t) (hr : ¬ r.count > 0) :
    Later pending left s t := by
  have hbytes := h.bytes
  rw [ReadResult.bytes_eq_nil hr, List.nil_append] at hbytes
  exact ⟨hbytes.symm, h.wait⟩

theorem count_le (r : ReadResult size) : r.count.toNat ≤ size := by
  rw [r.count_toNat]
  exact r.bytes_fit

/-- A read that gets something leaves less. -/
theorem Read.some_lt (h : Read again pending left size s r t) (hr : 0 < r.count) :
    budget pending left t < budget pending left s := by
  have hlength := h.length
  have hwait := h.wait
  rw [budget, budget]
  omega

/-- So does one that gets nothing where something was pending. -/
theorem Read.none_lt (h : Read again pending left size s r t) (hr : ¬ r.count > 0)
    (hsize : 0 < size) (hpending : pending s ≠ []) :
    again r.count = true ∧ budget pending left t < budget pending left s := by
  have hlater := (h.none hr).1
  rcases h.on hsize hpending with hpos | ⟨hagain, hlt⟩
  · exact absurd hpos hr
  · rw [budget, budget, hlater]
    exact ⟨hagain, by omega⟩

/-! ## The size of the file -/

/-- `got` bytes of the file have come, and the rest is pending. -/
structure Getting (pending : σ → List Byte) (st_size : Int) (s : σ) (got : ℕ) (t : σ) : Prop where
  length : got + (pending t).length = (pending s).length
  within : got ≤ st_size.toNat

theorem Getting.later {st_size : Int} {got : ℕ} {u : σ} (h : Getting pending st_size s got t)
    (ht : Later pending left t u) : Getting pending st_size s got u := by
  refine ⟨?_, h.within⟩
  rw [ht.1]
  exact h.length

theorem amount_pos {chunk : ℕ} (hchunk : 0 < chunk) {st_size : Int} {got : ℕ}
    (h : (got : Int) < st_size) :
    0 < amount chunk st_size got := by
  unfold amount
  split
  · omega
  · exact hchunk

theorem Getting.read {chunk : ℕ} {st_size : Int} {got : ℕ} {u : σ}
    {r : ReadResult (amount chunk st_size got)} (h : Getting pending st_size s got t)
    (hread : Read again pending left _ t r u) :
    Getting pending st_size s (got + r.count.toNat) u := by
  have hlength := hread.length
  have hgot := h.length
  have hwithin := h.within
  have hcount := count_le r
  have hamount := amount_le chunk st_size got
  constructor <;> omega

theorem Getting.more {st_size : Int} {got : ℕ} (h : Getting pending st_size s got t)
    (hsize : st_size ≤ (pending s).length) (hgot : (got : Int) < st_size) : pending t ≠ [] := by
  intro hnil
  have hlength := h.length
  rw [hnil, List.length_nil] at hlength
  omega

/-- The whole file has come. -/
def Whole (pending : σ → List Byte) (st_size : Int) (s t : σ) : Prop :=
  st_size.toNat + (pending t).length = (pending s).length

theorem Getting.whole {st_size : Int} {got : ℕ} (h : Getting pending st_size s got t)
    (hgot : ¬ (got : Int) < st_size) : Whole pending st_size s t := by
  have hlength := h.length
  have hwithin := h.within
  rw [Whole]
  omega

theorem getting_start (st_size : Int) : Getting pending st_size s 0 s :=
  ⟨Nat.zero_add _, Nat.zero_le _⟩

theorem scp_returns (h : Brings (fun rc => rc = 0) sys pending left) {st_size : Int}
    (hsize : st_size ≤ (pending s).length) :
    Returns Always (fun n => scp sys st_size n) s
      (fun _ t => Whole pending st_size s t) fun _ _ => False := by
  apply Returns.turns (fun _ => budget pending left) (Getting pending st_size s) _
    (getting_start st_size)
  intro got t hgot
  apply Returns.ite
  · intro hmore
    apply Returns.bind (read_returns h _ t)
    intro r u hread
    have hnext := hgot.read hread
    apply Returns.ite
    · intro hsome
      apply Returns.bind (out_returns h _ _ u)
      intro _ v hv
      have hbudget := hv.budget_le
      have hlt := hread.some_lt hsome
      exact Returns.pure ⟨hnext.later hv, by omega⟩
    · intro hnone
      obtain ⟨hzero, hlt⟩ := hread.none_lt hnone (amount_pos (by decide) hmore)
        (hgot.more hsize hmore)
      have hcode : r.count = 0 := of_decide_eq_true hzero
      apply Returns.ite
      · intro hneg
        omega
      · intro _
        exact Returns.pure ⟨hnext, hlt⟩
  · intro hall
    exact Returns.pure (hgot.whole hall)

/-- How the inner loop of `scp_nonblock.c` ends: with the whole file, or with fewer tries left. -/
theorem drain_scp_returns (h : Brings (fun rc => rc = libssh2ErrorEagain) sys pending left)
    {st_size : Int}
    (hsize : st_size ≤ (pending s).length) {got : ℕ} (hgot : Getting pending st_size s got t) :
    Returns Always (fun n => drain sys (amount (1024 * 24) st_size) (fun got rc => got + rc.toNat)
        (toStdout sys) n got) t
      (fun r u => Getting pending st_size s r.1 u ∧ ((r.1 : Int) < st_size →
        r.2 = libssh2ErrorEagain ∧ budget pending left u < budget pending left t))
        fun _ _ => False := by
  apply Returns.turns (fun _ => budget pending left)
    (fun got u => Getting pending st_size s got u ∧ budget pending left u ≤ budget pending left t) _
    ⟨hgot, Nat.le_refl _⟩
  rintro got u ⟨hgot, hu⟩
  apply Returns.bind (read_returns h _ u)
  intro r v hread
  have hnext := hgot.read hread
  have hhand : Returns Always (fun _ => toStdout sys r) v (fun _ w => Later pending left v w)
      fun _ _ => False := by
    apply Returns.ite
    · exact fun _ => out_returns h _ _ v
    · exact fun _ => Returns.pure ⟨rfl, Nat.le_refl _⟩
  apply Returns.bind hhand
  intro _ w hw
  have hbudget := hw.budget_le
  apply Returns.ite
  · intro hsome
    have hlt := hread.some_lt hsome
    exact Returns.pure ⟨⟨hnext.later hw, by omega⟩, by omega⟩
  · intro hnone
    apply Returns.pure
    have hzero : r.count.toNat = 0 := by omega
    rw [hzero, Nat.add_zero] at hnext
    refine ⟨hnext.later hw, ?_⟩
    intro hmore
    obtain ⟨hagain, hlt⟩ := hread.none_lt hnone (amount_pos (by decide) hmore)
      (hgot.more hsize hmore)
    exact ⟨of_decide_eq_true hagain, by omega⟩

theorem scpNonblock_returns (h : Brings (fun rc => rc = libssh2ErrorEagain) sys pending left)
    {st_size : Int} (hsize : st_size ≤ (pending s).length) :
    Returns Always (fun n => scpNonblock sys st_size n) s (fun _ t => Whole pending st_size s t)
      fun _ _ => False := by
  apply Returns.turns (fun _ => budget pending left) (Getting pending st_size s) _
    (getting_start st_size)
  intro got t hgot
  apply Returns.ite
  · intro _
    apply Returns.bind (drain_scp_returns h hsize hgot)
    rintro ⟨got, rc⟩ u ⟨hgot, hmore⟩
    apply Returns.ite
    · rintro ⟨-, hpart⟩
      apply Returns.bind (waitsocket_returns h u)
      intro _ v hv
      have hbudget := hv.budget_le
      have hlt := (hmore hpart).2
      exact Returns.pure ⟨hgot.later hv, by omega⟩
    · intro hstop
      apply Returns.pure
      apply hgot.whole
      intro hpart
      exact hstop ⟨(hmore hpart).1, hpart⟩
  · intro hall
    exact Returns.pure (hgot.whole hall)

/-! ## Whole streams -/

/-- Behind the last byte a read returns 0. -/
def Closes (sys : System σ) (pending : σ → List Byte) : Prop :=
  ∀ len s, pending s = [] → (sys.read len s).1.count = 0

theorem sftp_returns (h : Brings (fun _ => false) sys pending left) :
    Returns Always (fun n => sftp sys n) s (fun _ t => pending t = []) fun _ _ => False := by
  apply Returns.turns (fun _ => budget pending left) (fun _ _ => True) _ trivial
  intro _ t _
  apply Returns.bind (note_returns pending left _ t)
  intro _ u hu
  apply Returns.bind (read_returns h _ u)
  intro r v hread
  apply Returns.ite
  · intro hsome
    apply Returns.bind (out_returns h _ _ v)
    intro _ w hw
    have hbudget := hw.budget_le
    have hlt := hread.some_lt hsome
    have hstart := hu.budget_le
    exact Returns.pure ⟨trivial, by omega⟩
  · intro hnone
    apply Returns.pure
    by_cases hnil : pending u = []
    · exact (hread.none hnone).1.trans hnil
    · cases (hread.none_lt hnone (by decide) hnil).1

/-- What a read is that was tried until it did not block. -/
structure Settled (pending : σ → List Byte) (left : σ → ℕ) (s : σ) (r : ReadResult size) (t : σ) :
    Prop where
  budget_le : budget pending left t ≤ budget pending left s
  some_lt : r.count > 0 → budget pending left t < budget pending left s
  none : ¬ r.count > 0 → pending t = []

theorem readWaiting_returns (h : Brings (fun rc => rc = libssh2ErrorEagain) sys pending left)
    (hcloses : Closes sys pending) (hsize : 0 < size) (s : σ) :
    Returns Always (fun n => readWaiting sys size n) s
      (Settled pending left s) fun _ _ => False := by
  apply Returns.turns (fun _ => budget pending left)
    (fun _ t => budget pending left t ≤ budget pending left s) _ (Nat.le_refl _)
  intro _ t ht
  have hread : Returns Always
      (fun _ => (ask (sys.read size) fun r => .read size r.count r.bytes :
        Download σ (ReadResult size))) t
      (fun r u => Read (fun rc => rc = libssh2ErrorEagain) pending left size t r u ∧
        (pending t = [] → r.count = 0)) fun _ _ => False :=
    Returns.ask trivial ⟨⟨h.read size t, h.wait size t, h.on size t⟩, hcloses size t⟩
  apply Returns.bind hread
  rintro r u ⟨hread, hzero⟩
  apply Returns.ite
  · intro hblocks
    have hcode : r.count = libssh2ErrorEagain := of_decide_eq_true hblocks
    have hneg : libssh2ErrorEagain < 0 := by decide
    have hnone : ¬ r.count > 0 := by omega
    have hmore : pending t ≠ [] := by
      intro hnil
      have hcount := hzero hnil
      omega
    have hlt := (hread.none_lt hnone hsize hmore).2
    apply Returns.bind (waitsocket_returns h u)
    intro _ v hv
    have hbudget := hv.budget_le
    refine Returns.pure ⟨?_, ?_⟩ <;> omega
  · intro hblocks
    apply Returns.pure
    by_cases hsome : r.count > 0
    · have hlt := hread.some_lt hsome
      exact ⟨by omega, fun _ => by omega, fun hnone => absurd hsome hnone⟩
    · have hlater := hread.none hsome
      have hbudget := hlater.budget_le
      refine ⟨by omega, fun hpos => absurd hpos hsome, ?_⟩
      intro _
      by_cases hnil : pending t = []
      · exact hlater.1.trans hnil
      · exact absurd (hread.none_lt hsome hsize hnil).1 hblocks

theorem sftpNonblock_returns (h : Brings (fun rc => rc = libssh2ErrorEagain) sys pending left)
    (hcloses : Closes sys pending) :
    Returns Always (fun n => sftpNonblock sys n) s
      (fun _ t => pending t = []) fun _ _ => False := by
  apply Returns.turns (fun _ => budget pending left) (fun _ _ => True) _ trivial
  intro _ t _
  apply Returns.bind (readWaiting_returns h hcloses (by decide) t)
  intro r u hread
  apply Returns.ite
  · intro hsome
    apply Returns.bind (out_returns h _ _ u)
    intro _ v hv
    have hbudget := hv.budget_le
    have hlt := hread.some_lt hsome
    exact Returns.pure ⟨trivial, by omega⟩
  · intro hnone
    exact Returns.pure (hread.none hnone)

/-- `got` bytes have come, and the rest is pending. -/
def Counted (pending : σ → List Byte) (total got : ℕ) (t : σ) : Prop :=
  got + (pending t).length = total

/-- How an inner loop ends: at the end of the stream, or with fewer tries left. -/
theorem drain_returns {γ : Type} {count : ℕ → γ} {add : γ → Int → γ}
    (h : Brings (fun rc => rc = libssh2ErrorEagain) sys pending left) (hcloses : Closes sys pending)
    (hsize : 0 < size) (hcount : Counts (fun _ => size) count (fun _ => size) add)
    {hand : {len : ℕ} → ReadResult len → Download σ Unit}
    (hhand : ∀ {len} (r : ReadResult len) s, Returns Always (fun _ => hand r) s
      (fun _ t => Later pending left s t) fun _ _ => False) {total got : ℕ}
        (hgot : Counted pending total got t) :
    Returns Always (fun n => drain sys (fun _ => size) add hand n (count got)) t
      (fun r u => (∃ got, r.1 = count got ∧ Counted pending total got u) ∧
        ((r.2 = 0 ∧ pending u = []) ∨
        (r.2 = libssh2ErrorEagain ∧ budget pending left u < budget pending left t)))
      fun _ _ => False := by
  apply Returns.turns (fun _ => budget pending left)
    (fun i u => (∃ got, i = count got ∧ Counted pending total got u) ∧
      budget pending left u ≤ budget pending left t) _ ⟨⟨got, rfl, hgot⟩, Nat.le_refl _⟩
  rintro _ u ⟨⟨got, rfl, hgot⟩, hu⟩
  have hread : Returns Always (fun _ => read sys size) u
      (fun r v => Read (fun rc => rc = libssh2ErrorEagain) pending left size u r v ∧
        (pending u = [] → r.count = 0)) fun _ _ => False :=
    Returns.ask trivial ⟨⟨h.read size u, h.wait size u, h.on size u⟩, hcloses size u⟩
  apply Returns.bind hread
  rintro r v ⟨hread, hzero⟩
  have hlength := hread.length
  apply Returns.bind (hhand r v)
  intro _ w hw
  have hbudget := hw.budget_le
  rw [Counted] at hgot
  apply Returns.ite
  · intro hsome
    have hlt := hread.some_lt hsome
    apply Returns.pure
    refine ⟨⟨⟨_, hcount.add r got hsome, ?_⟩, by omega⟩, by omega⟩
    rw [Counted, hw.1, ← r.count_toNat]
    omega
  · intro hnone
    apply Returns.pure
    refine ⟨⟨got, rfl, ?_⟩, ?_⟩
    · rw [Counted, hw.1]
      omega
    · by_cases hnil : pending u = []
      · exact .inl ⟨hzero hnil, hw.1.trans ((hread.none hnone).1.trans hnil)⟩
      · obtain ⟨hagain, hlt⟩ := hread.none_lt hnone hsize hnil
        exact .inr ⟨of_decide_eq_true hagain, by omega⟩

theorem toStderr_returns (h : Brings again sys pending left) {len : ℕ}
    (r : ReadResult len) (s : σ) :
    Returns Always (fun _ => toStderr sys r) s
      (fun _ t => Later pending left s t) fun _ _ => False := by
  apply Returns.ite
  · intro _
    apply Returns.bind (note_returns pending left _ s)
    intro _ t ht
    apply Returns.bind (out_returns h _ _ t)
    intro _ u hu
    apply (note_returns pending left _ u).mono
    exact fun _ v hv => (ht.trans hu).trans hv
  · intro _
    apply Returns.ite
    · exact fun _ => note_returns pending left _ s
    · exact fun _ => Returns.pure ⟨rfl, Nat.le_refl _⟩

theorem toStorage_returns (h : Brings again sys pending left) {len : ℕ}
    (r : ReadResult len) (s : σ) :
    Returns Always (fun _ => toStorage sys r) s
      (fun _ t => Later pending left s t) fun _ _ => False := by
  apply Returns.bind (note_returns pending left _ s)
  intro _ t ht
  apply Returns.ite
  · intro _
    apply Returns.bind (out_returns h _ _ t)
    intro _ u hu
    apply (out_returns h _ _ u).mono
    exact fun _ v hv => (ht.trans hu).trans hv
  · exact fun _ => Returns.pure ht

theorem rwDownload_returns (h : Brings (fun rc => rc = libssh2ErrorEagain) sys pending left)
    (hcloses : Closes sys pending) (hselect : ∀ s, 0 < (sys.select s).1) :
    Returns Always (fun n => rwDownload sys n) s (fun _ t => pending t = []) fun _ _ => False := by
  apply Returns.turns (fun _ => budget pending left) (fun _ _ => True) _ trivial
  intro _ t _
  apply Returns.bind (drain_returns h hcloses (by decide) (counts_nothing 1000)
    (toStorage_returns h) (Nat.zero_add (pending t).length))
  rintro ⟨_, rc⟩ u ⟨-, hend⟩
  dsimp only at hend
  apply Returns.ite
  · intro hstop
    apply Returns.pure
    rcases hend with hend | hend
    · exact hend.2
    · exact absurd hend.1 hstop
  · intro hagain
    have hlt : budget pending left u < budget pending left t := by
      rcases hend with hend | hend
      · have hcode : rc = libssh2ErrorEagain := not_not.mp hagain
        rw [hend.1] at hcode
        exact absurd hcode (by decide)
      · exact hend.2
    have hask : Returns Always (fun _ => (ask sys.select .select : Download σ Int)) u
        (fun rc v => 0 < rc ∧ Later pending left u v) fun _ _ => False :=
      Returns.ask trivial ⟨hselect u, h.select u⟩
    apply Returns.bind hask
    rintro rc v ⟨hrc, hv⟩
    have hbudget := hv.budget_le
    apply Returns.ite
    · intro htimeout
      omega
    · intro _
      exact Returns.pure ⟨trivial, by omega⟩

theorem execOutput_returns (h : Brings (fun rc => rc = libssh2ErrorEagain) sys pending left)
    (hcloses : Closes sys pending) :
    Returns Always (fun n => execOutput sys n) s
      (fun bytecount t => bytecount = Int32.ofNat (pending s).length ∧ pending t = [])
      fun _ _ => False := by
  apply Returns.turns (fun _ => budget pending left)
    (fun bytecount t => ∃ got, bytecount = Int32.ofNat got ∧
      Counted pending (pending s).length got t) _
    ⟨0, rfl, Nat.zero_add _⟩
  rintro _ t ⟨got, rfl, hcount⟩
  apply Returns.bind (drain_returns h hcloses (by decide) (counts_int 0x4000)
    (toStderr_returns h) hcount)
  rintro ⟨bytecount, rc⟩ u ⟨⟨got, hbytecount, hcount⟩, hend⟩
  dsimp only at hbytecount hend
  subst hbytecount
  apply Returns.ite
  · intro hagain
    have hlt : budget pending left u < budget pending left t := by
      rcases hend with hend | hend
      · rw [hend.1] at hagain
        exact absurd hagain (by decide)
      · exact hend.2
    apply Returns.bind (waitsocket_returns h u)
    intro _ v hv
    have hbudget := hv.budget_le
    apply Returns.pure
    refine ⟨⟨got, rfl, ?_⟩, by omega⟩
    rw [Counted, hv.1]
    exact hcount
  · intro hstop
    apply Returns.pure
    rcases hend with hend | hend
    · rw [Counted, hend.2] at hcount
      exact ⟨congrArg Int32.ofNat hcount, hend.2⟩
    · exact absurd hend.1 hstop

/-! ## Copies -/

/-- From some budget on, the outcome is the same: the program ends with `a`, and has handed exactly
`mem` to the sink. -/
def Copies {α : Type} (P : ℕ → Download σ α) (s : σ) (k : Sink) (mem : List Byte) (a : α) : Prop :=
  ∃ n₀ o, (∀ n, n₀ ≤ n → P n s = o) ∧ o.value = .value a ∧ (toSink k).sentOf o.log = mem

theorem copies_of_returns {α : Type} {P : ℕ → Download σ α} {k : Sink} {a : α} {Post : α → σ → Prop}
    {mem : List Byte} (h : Returns Always P s Post fun _ _ => False)
    (hvalue : ∀ b t, Post b t → b = a)
    (hreceived : ∀ b t l, Post b t → Received pending s l t → receivedOf l = mem)
    (hleads : ∀ n, Leads (Received pending) (P n))
    (hsent : ∀ n b, (P n s).value = .value b →
      (toSink k).sentOf (P n s).log = receivedOf (P n s).log) :
    Copies P s k mem a := by
  obtain ⟨n₀, ⟨v, t, l⟩, hrun, -, hend⟩ := h
  cases v with
  | cut => exact hend.elim
  | left x => exact hend.elim
  | value b =>
    have hpath := hleads n₀ s
    have hall := hsent n₀ b
    rw [hrun n₀ (Nat.le_refl _)] at hpath hall
    refine ⟨n₀, _, hrun, congrArg Ending.value (hvalue b t hend), ?_⟩
    rw [hall rfl]
    exact hreceived b t l hend hpath

theorem received_whole {st_size : Int} {l : List Event} (h : Whole pending st_size s t)
    (hl : Received pending s l t) : receivedOf l = (pending s).take st_size.toNat := by
  rw [Received] at hl
  have hlength := congrArg List.length hl
  rw [List.length_append] at hlength
  rw [Whole] at h
  rw [hl, List.take_append_of_le_length (by omega), List.take_of_length_le (by omega)]

theorem received_all {l : List Event} (h : pending t = []) (hl : Received pending s l t) :
    receivedOf l = pending s := by
  rw [Received, h, List.append_nil] at hl
  exact hl.symm

theorem sent_of_meets {α : Type} {P : Download σ α} {sinks : List Sink} {want : ℕ → ℕ}
    {start : List Event → Prop} {Q : α → List Event → Prop}
    (h : Meets (Faithful sinks want) start P Q fun _ _ => True) (hstart : start [])
    (hend : ∀ a l, Q a l → Resting sinks l) {k : Sink} (hk : k ∈ sinks) {a : α}
    (hv : (P s).value = .value a) : (toSink k).sentOf (P s).log = receivedOf (P s).log := by
  obtain ⟨got, rc, hidle⟩ := hend _ _ (h.value hstart hv)
  exact (hidle.pending k hk).all_sent

theorem scp_copies (h : Brings (fun rc => rc = 0) sys pending left) {st_size : Int}
    (hsize : st_size ≤ (pending s).length) :
    Copies (fun n => scp sys st_size n) s .stdout ((pending s).take st_size.toNat) () := by
  apply copies_of_returns (scp_returns h hsize) (fun _ _ _ => rfl)
  · exact fun _ _ _ hwhole => received_whole hwhole
  · exact scp_leads h st_size
  · intro n _ hv
    exact sent_of_meets (scp_meets st_size n) (idle_nil _)
      (fun _ _ hl => hl.idle) List.mem_cons_self hv

theorem sftp_copies (h : Brings (fun _ => false) sys pending left) (s : σ) :
    Copies (sftp sys) s .stdout (pending s) () := by
  apply copies_of_returns (sftp_returns h) (fun _ _ _ => rfl)
  · exact fun _ _ _ hnil => received_all hnil
  · exact sftp_leads h
  · intro n _ hv
    exact sent_of_meets (sftp_meets n) (resting_nil _) (fun _ _ hl => hl) List.mem_cons_self hv

theorem Brings.mono {again' : Int → Bool} (h : Brings again sys pending left)
    (hagain : ∀ rc, again rc = true → again' rc = true) : Brings again' sys pending left where
  read := h.read
  wait := h.wait
  on len s hlen hs := (h.on len s hlen hs).imp_right fun hagain' => ⟨hagain _ hagain'.1, hagain'.2⟩
  out := h.out
  waitsocket := h.waitsocket
  select := h.select

/-- A connection that brings one byte at a time. -/
def byteByByte : System (List Byte) where
  read len s :=
    match len, s with
    | _ + 1, c :: rest => (.stored [c] Nat.one_pos (Nat.le_add_left 1 _), rest)
    | _, s => (.failed 0 (Int.le_refl 0), s)
  out _ _ s := s
  waitsocket s := (1, s)
  select s := (1, s)
  channelClose s := (0, s)
  exitStatus s := (0, s)
  exitSignal s := (none, s)

theorem byteByByte_brings (again : Int → Bool) : Brings again byteByByte id fun _ => 0 where
  read len s := by
    cases len with
    | zero => rfl
    | succ len => cases s <;> rfl
  wait _ _ := Nat.le_refl _
  on len s hlen hs := by
    obtain ⟨len, rfl⟩ := Nat.exists_eq_succ_of_ne_zero (Nat.ne_of_gt hlen)
    cases s with
    | nil => exact absurd rfl hs
    | cons c rest => exact .inl Int.one_pos
  out _ _ _ := ⟨rfl, Nat.le_refl _⟩
  waitsocket _ := ⟨rfl, Nat.le_refl _⟩
  select _ := ⟨rfl, Nat.le_refl _⟩

theorem byteByByte_closes : Closes byteByByte id := by
  intro len s hs
  cases hs
  cases len <;> rfl

/-- Where reads wait for data, `scp.c` writes exactly the first `st_size` bytes that the connection
brings, however they come in pieces, and leaves the others; `sftp.c` writes everything. -/
theorem blocking_copies (h : Brings (fun _ => false) sys pending left) {st_size : Int}
    (hsize : st_size ≤ (pending s).length) :
    Copies (fun n => scp sys st_size n) s .stdout ((pending s).take st_size.toNat) () ∧
      Copies (sftp sys) s .stdout (pending s) () :=
  ⟨scp_copies (h.mono fun _ hagain => absurd hagain (by decide)) hsize, sftp_copies h s⟩

theorem blocking_copies_byteByByte :
    Copies (fun n => scp byteByByte 2 n) [65, 66, 67] .stdout ([65, 66, 67].take 2) () ∧
      Copies (sftp byteByByte) [65, 66, 67] .stdout [65, 66, 67] () :=
  blocking_copies (byteByByte_brings _) (by decide)

/-- Where they do not, the same holds of the other programs, if data comes sooner or later, the end
is seen behind it, and `select` never gives up; `ssh2_exec.c` counts the bytes in an `int`. -/
theorem nonblocking_copies (h : Brings (fun rc => rc = libssh2ErrorEagain) sys pending left)
    (hcloses : Closes sys pending) (hselect : ∀ s, 0 < (sys.select s).1) {st_size : Int}
    (hsize : st_size ≤ (pending s).length) :
    Copies (fun n => scpNonblock sys st_size n) s .stdout ((pending s).take st_size.toNat) () ∧
      Copies (sftpNonblock sys) s .stdout (pending s) () ∧
      Copies (rwDownload sys) s .tempstorage (pending s) () ∧
      Copies (execOutput sys) s .stderr (pending s) (Int32.ofNat (pending s).length) := by
  refine ⟨?_, ?_, ?_, ?_⟩
  · apply copies_of_returns (scpNonblock_returns h hsize) (fun _ _ _ => rfl)
    · exact fun _ _ _ hwhole => received_whole hwhole
    · exact scpNonblock_leads h st_size
    · intro n _ hv
      exact sent_of_meets (scpNonblock_meets st_size n) (idle_nil _) (fun _ _ hl => hl.idle)
        List.mem_cons_self hv
  · apply copies_of_returns (sftpNonblock_returns h hcloses) (fun _ _ _ => rfl)
    · exact fun _ _ _ hnil => received_all hnil
    · exact sftpNonblock_leads h
    · intro n _ hv
      exact sent_of_meets (sftpNonblock_meets n) (resting_nil _)
        (fun _ _ hl => hl) List.mem_cons_self hv
  · apply copies_of_returns (rwDownload_returns h hcloses hselect) (fun _ _ _ => rfl)
    · exact fun _ _ _ hnil => received_all hnil
    · exact rwDownload_leads h
    · intro n _ hv
      exact sent_of_meets (rwDownload_meets n) (resting_nil _) (fun _ _ hl => hl) (by simp) hv
  · apply copies_of_returns (execOutput_returns h hcloses) (fun _ _ hend => hend.1)
    · exact fun _ _ _ hend => received_all hend.2
    · exact execOutput_leads h
    · intro n _ hv
      exact sent_of_meets (execOutput_meets n) (idle_nil _) (fun _ _ ⟨got, _, hl⟩ => ⟨got, hl⟩)
        List.mem_cons_self hv

theorem nonblocking_copies_byteByByte :
    Copies (fun n => scpNonblock byteByByte 2 n) [65, 66, 67] .stdout ([65, 66, 67].take 2) () ∧
      Copies (sftpNonblock byteByByte) [65, 66, 67] .stdout [65, 66, 67] () ∧
      Copies (rwDownload byteByByte) [65, 66, 67] .tempstorage [65, 66, 67] () ∧
      Copies (execOutput byteByByte) [65, 66, 67] .stderr [65, 66, 67] 3 :=
  nonblocking_copies (byteByByte_brings _) byteByByte_closes (fun _ => Int.one_pos) (by decide)

end CloudSsh.CompletedDownloads
