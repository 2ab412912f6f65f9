import CloudSsh.ReturningPrograms
import CloudSsh.EchoRuns

/-!
# The echo test passes

If the channel echoes and gets on, and reports that it is closed only behind the EOF,
`ssh2_echo.c` ends with success: it has sent its 1500000 letters and got them back.
-/
namespace CloudSsh.CompletedEcho
open EnvironmentPrograms InterruptedPrograms BufferedTransfers ReturningPrograms
open EchoExchange EchoRuns
open RelayLoop (Byte ReadResult libssh2ErrorEagain)

variable {σ : Type} {sys : System σ} {pipe : σ → List Byte} {eof : σ → Bool} {left : σ → ℕ}
variable {i j : State} {s t : σ}

/-- What a call that moves data is answered: something is moved, or nothing, `left`
times at most. -/
def Moves (left : σ → ℕ) (n : Int) (s t : σ) : Prop :=
  0 < n ∨ (n = 0 ∨ n = libssh2ErrorEagain) ∧ left t < left s

/-- `eof` tells whether the EOF was sent, and `left` bounds the calls to come that
get nothing done. -/
structure Steady (eof : σ → Bool) (left : σ → ℕ) (s t : σ) : Prop where
  eof : eof t = eof s
  left : left t ≤ left s

/-- The other side gets on with its work. -/
structure GetsOn (sys : System σ) (pipe : σ → List Byte) (eof : σ → Bool)
    (left : σ → ℕ) : Prop where
  poll : ∀ pollout s, Steady eof left s (sys.poll pollout s).2
  /-- What is reported is so: there is data to read, POLLOUT was asked for, and the channel is
  closed only when all was sent and read. -/
  reports : ∀ pollout s, 1 ≤ (sys.poll pollout s).1.1 →
    ((sys.poll pollout s).1.2.pollin = true → pipe s ≠ []) ∧
    ((sys.poll pollout s).1.2.pollout = true → pollout = true) ∧
    ((sys.poll pollout s).1.2.closed = true → eof s = true ∧ pipe s = [])
  /-- Something is reported if there still is something to ask for or to wait for. -/
  on : ∀ pollout s, (pollout = false → eof s = true) →
    left (sys.poll pollout s).2 < left s ∨ 1 ≤ (sys.poll pollout s).1.1 ∧
      ((sys.poll pollout s).1.2.pollin = true ∨ (sys.poll pollout s).1.2.pollout = true ∨
        (sys.poll pollout s).1.2.closed = true)
  channelRead : ∀ s, Steady eof left s (sys.channelRead bufsize s).2 ∧
    (pipe s ≠ [] → Moves left (sys.channelRead bufsize s).1.count s (sys.channelRead bufsize s).2)
  channelWrite : ∀ buf s, Steady eof left s (sys.channelWrite buf s).2 ∧
    (buf ≠ [] → Moves left (sys.channelWrite buf s).1.1 s (sys.channelWrite buf s).2)
  sendEof : ∀ s, (sys.sendEof s).1 = libssh2ErrorEagain ∧ eof (sys.sendEof s).2 = eof s ∧
      left (sys.sendEof s).2 < left s ∨
    0 ≤ (sys.sendEof s).1 ∧ eof (sys.sendEof s).2 = true ∧ left (sys.sendEof s).2 ≤ left s
  channelClose : ∀ s, Steady eof left s (sys.channelClose s).2 ∧
    ((sys.channelClose s).1 = libssh2ErrorEagain → left (sys.channelClose s).2 < left s)
  waitsocket : ∀ s, Steady eof left s (sys.waitsocket s).2
  exitStatus : ∀ s, eof (sys.exitStatus s).2 = eof s
  exitSignal : ∀ s, eof (sys.exitSignal s).2 = eof s

/-- What was written and not read waits in the pipe. -/
def Waits (pipe : σ → List Byte) (i : State) (s : σ) : Prop :=
  ∃ got, i.totread = Int32.ofNat got ∧ got + (pipe s).length = i.totwritten

/-- Between two turns: what was written and not read waits in the pipe, and POLLOUT is asked for
until the EOF was sent, behind the last byte. -/
structure Inv (pipe : σ → List Byte) (eof : σ → Bool) (i : State) (s : σ) : Prop where
  size : i.buffer.length = bufsize
  waits : Waits pipe i s
  within : i.totwritten ≤ totsize
  pollout : i.pollout = !eof s
  ended : eof s = true → i.totwritten = totsize

/-- A byte that is missing is to be written and to be read. -/
def toDo (pipe : σ → List Byte) (left : σ → ℕ) (i : State) (s : σ) : ℕ :=
  2 * (totsize - i.totwritten) + (pipe s).length + i.pollout.toNat + left s

def Always (_ : Event) : Prop := True

/-- A part of a turn that is over: there is less to do, if there was anything to do. -/
structure Less (pipe : σ → List Byte) (eof : σ → Bool) (left : σ → ℕ) (act : Bool)
    (i : State) (s : σ) (j : State) (t : σ) : Prop where
  inv : Inv pipe eof j t
  less : toDo pipe left j t + act.toNat ≤ toDo pipe left i s
  idle : act = false → j = i ∧ t = s

theorem told_returns (text : String) (s : σ) :
    Returns Always (fun _ => (note (.stderr text) : Echo σ Unit)) s
      (fun _ t => t = s) fun _ _ => False :=
  Returns.note trivial rfl

theorem note_returns {α : Type} {Post : α → σ → Prop} (text : String) {a : α} (h : Post a s) :
    Returns Always (fun _ => (do note (.stderr text); pure a : Echo σ α)) s
      Post fun _ _ => False := by
  apply Returns.bind (told_returns _ s)
  rintro _ t rfl
  exact Returns.pure h

/-- The outcome of a call is looked at. -/
theorem ask_returns {α : Type} (answer : σ → α × σ) (event : α → Event) (s : σ) :
    Returns Always (fun _ => (ask answer event : Echo σ α)) s
      (fun a t => a = (answer s).1 ∧ t = (answer s).2) fun _ _ => False :=
  Returns.ask trivial ⟨rfl, rfl⟩

theorem Moves.fall {n : Int} (h : Moves left n s t) (hagain : n = libssh2ErrorEagain) :
    left t < left s := by
  rcases h with hpos | h
  · rw [hagain] at hpos
    exact absurd hpos (by decide)
  · exact h.2

theorem Moves.not_neg {n : Int} (h : Moves left n s t) (hnot : n ≠ libssh2ErrorEagain) :
    ¬ n < 0 := by
  rcases h with hpos | ⟨hzero | hagain, -⟩
  · omega
  · omega
  · exact absurd hagain hnot

theorem Inv.steady (hinv : Inv pipe eof i s) (hsteady : Steady eof left s t)
    (hsize : j.buffer.length = bufsize) (hwaits : Waits pipe j t)
    (hwithin : j.totwritten ≤ totsize) (hwritten : i.totwritten ≤ j.totwritten)
    (hpollout : j.pollout = i.pollout) : Inv pipe eof j t where
  size := hsize
  waits := hwaits
  within := hwithin
  pollout := by rw [hpollout, hsteady.eof, hinv.pollout]
  ended heof := by
    rw [hsteady.eof] at heof
    have hended := hinv.ended heof
    omega

theorem readPart_returns (hechoes : Echoes sys pipe) (h : GetsOn sys pipe eof left)
    (hinv : Inv pipe eof i s) (hpipe : pipe s ≠ []) :
    Returns Always (fun _ => readPart sys i) s
      (fun j t => Less pipe eof left true i s j t ∧ j.pollout = i.pollout) fun _ _ => False := by
  obtain ⟨hsteady, hmoves⟩ := h.channelRead s
  have hmoves := hmoves hpipe
  have hread := congrArg List.length (hechoes.channelRead s)
  rw [List.length_append] at hread
  apply Returns.bind (ask_returns _ _ s)
  rintro r t ⟨hr, ht⟩
  rw [← hr, ← ht] at hmoves hread
  rw [← ht] at hsteady
  have hcount := r.count_toNat
  have hfits := r.bytes_fit
  have hsize := hinv.size
  obtain ⟨got, htotread, hwaits⟩ := hinv.waits
  have hless := hsteady.left
  apply Returns.ite
  · intro hagain
    have hnone : r.count.toNat = 0 := by
      rw [hagain]
      decide
    have hfall := hmoves.fall hagain
    apply note_returns
    have hsame : Waits pipe { i with rereads := i.rereads + 1 } t := by
      refine ⟨got, htotread, ?_⟩
      dsimp only
      omega
    refine ⟨⟨hinv.steady hsteady hsize hsame hinv.within (Nat.le_refl _) rfl, ?_, nofun⟩, rfl⟩
    simp only [toDo, Bool.toNat_true]
    omega
  · intro hnot
    apply Returns.ite
    · exact fun hneg => absurd hneg (hmoves.not_neg hnot)
    · intro hnonneg
      apply note_returns
      refine ⟨⟨hinv.steady hsteady ?_ ?_ hinv.within (Nat.le_refl _) rfl, ?_, nofun⟩, rfl⟩
      · simp only [overlay, List.length_append, List.length_drop]
        omega
      · refine ⟨got + r.bytes.length, ?_, ?_⟩
        · rw [htotread, ReadResult.int32_count (Int.not_lt.mp hnonneg), Int32.ofNat_add]
        · dsimp only
          omega
      · simp only [toDo, Bool.toNat_true]
        rcases hmoves with hpos | hmoves
        · omega
        · omega

theorem written_returns {Post : State → σ → Prop} (n : ℕ)
    (h : ∀ partials, Post { i with totwritten := i.totwritten + n, partials := partials } s) :
    Returns Always (fun _ => written i n) s Post fun _ _ => False := by
  apply Returns.bind (told_returns _ s)
  rintro _ t rfl
  apply Returns.ite
  · intro _
    apply Returns.bind (told_returns _ t)
    rintro _ u rfl
    exact note_returns _ (h _)
  · exact fun _ => note_returns _ (h i.partials)

theorem written_length (hechoes : Echoes sys pipe) (buf : List Byte) (s : σ) :
    (pipe (sys.channelWrite buf s).2).length =
      (pipe s).length + (sys.channelWrite buf s).1.1.toNat := by
  have hfits := (sys.channelWrite buf s).1.2
  rw [hechoes.channelWrite, List.length_append, List.length_take]
  omega

theorem writeSome_returns (hechoes : Echoes sys pipe) (h : GetsOn sys pipe eof left)
    (hinv : Inv pipe eof i s) (hmore : i.totwritten < totsize) :
    Returns Always (fun _ => writeSome sys i) s (Less pipe eof left true i s) fun _ _ => False := by
  have hsize := hinv.size
  have hpos : 0 < bufsize := by decide
  have hbuf := List.length_take (i := min (totsize - i.totwritten) bufsize) (l := i.buffer)
  have hne : i.buffer.take (min (totsize - i.totwritten) bufsize) ≠ [] := by
    rw [← List.length_pos_iff]
    omega
  obtain ⟨hsteady, hmoves⟩ := h.channelWrite
    (i.buffer.take (min (totsize - i.totwritten) bufsize)) s
  have hmoves := hmoves hne
  have hwrite := written_length hechoes (i.buffer.take (min (totsize - i.totwritten) bufsize)) s
  apply Returns.bind (ask_returns _ _ s)
  rintro n t ⟨hn, ht⟩
  rw [← hn, ← ht] at hmoves hwrite
  rw [← ht] at hsteady
  have hfits := n.2
  obtain ⟨got, htotread, hwaits⟩ := hinv.waits
  have hwithin := hinv.within
  have hless := hsteady.left
  apply Returns.ite
  · intro hagain
    have hzero : n.1.toNat = 0 := by
      rw [hagain]
      decide
    have hfall := hmoves.fall hagain
    apply note_returns
    refine ⟨hinv.steady hsteady hsize ⟨got, htotread, ?_⟩ hwithin (Nat.le_refl _) rfl, ?_, nofun⟩
    · dsimp only
      omega
    · simp only [toDo, Bool.toNat_true]
      omega
  · intro hnot
    apply Returns.ite
    · exact fun hneg => absurd hneg (hmoves.not_neg hnot)
    · intro _
      apply written_returns
      intro partials
      refine ⟨hinv.steady hsteady hsize ⟨got, htotread, ?_⟩ ?_
        (Nat.le_add_right _ _) rfl, ?_, nofun⟩
      · dsimp only
        omega
      · dsimp only
        omega
      · simp only [toDo, Bool.toNat_true]
        rcases hmoves with hpos | hmoves
        · omega
        · omega

theorem sendEof_returns (hechoes : Echoes sys pipe) (h : GetsOn sys pipe eof left)
    (hinv : Inv pipe eof i s) (hall : ¬ i.totwritten < totsize) (hout : i.pollout = true) :
    Returns Always (fun _ => sendEof sys i) s (Less pipe eof left true i s) fun _ _ => False := by
  have hanswer := h.sendEof s
  have hpipe := congrArg List.length (hechoes.sendEof s)
  apply Returns.bind (ask_returns _ _ s)
  rintro rc t ⟨hrc, ht⟩
  rw [← hrc, ← ht] at hanswer
  rw [← ht] at hpipe
  obtain ⟨got, htotread, hwaits⟩ := hinv.waits
  have hwithin := hinv.within
  apply Returns.ite
  · intro hagain
    rcases hanswer with ⟨-, heof, hfall⟩ | ⟨hpos, -⟩
    · apply note_returns
      have hsteady : Steady eof left s t := ⟨heof, Nat.le_of_lt hfall⟩
      have hsame : Waits pipe i t := ⟨got, htotread, by omega⟩
      refine ⟨hinv.steady hsteady hinv.size hsame hwithin (Nat.le_refl _) rfl, ?_, nofun⟩
      simp only [toDo, Bool.toNat_true]
      omega
    · rw [hagain] at hpos
      exact absurd hpos (by decide)
  · intro hnot
    rcases hanswer with ⟨hagain, -⟩ | ⟨hpos, heof, hless⟩
    · exact absurd hagain hnot
    · apply Returns.ite
      · intro hneg
        omega
      · intro _
        apply note_returns
        refine ⟨⟨hinv.size, ⟨got, htotread, ?_⟩, hwithin, ?_, ?_⟩, ?_, nofun⟩
        · dsimp only
          omega
        · rw [heof]
          rfl
        · intro _
          dsimp only
          omega
        · simp only [toDo, hout, Bool.toNat_true, Bool.toNat_false]
          omega

theorem writePart_returns (hechoes : Echoes sys pipe) (h : GetsOn sys pipe eof left)
    (hinv : Inv pipe eof i s) (hout : i.pollout = true) :
    Returns Always (fun _ => writePart sys i) s (Less pipe eof left true i s) fun _ _ => False :=
  Returns.ite (writeSome_returns hechoes h hinv) fun hall =>
    sendEof_returns hechoes h hinv hall hout

/-- A part of the turn that is made if the poll reported it. -/
theorem part_returns {act : Bool} {p : Echo σ State} {Post : State → σ → Prop}
    (hidle : act = false → Post i s)
    (h : act = true → Returns Always (fun _ => p) s Post fun _ _ => False) :
    Returns Always (fun _ => if act then p else pure i) s Post fun _ _ => False := by
  cases act with
  | true => exact h rfl
  | false => exact Returns.pure (hidle rfl)

theorem Inv.idle (hinv : Inv pipe eof i s) : Less pipe eof left false i s i s :=
  ⟨hinv, Nat.le_refl _, fun _ => ⟨rfl, rfl⟩⟩

/-- Behind the loop. -/
def Done (eof : σ → Bool) (i : State) (s : σ) : Prop :=
  i.totwritten = totsize ∧ i.totread = Int32.ofNat totsize ∧ eof s = true

theorem turn_returns (hechoes : Echoes sys pipe) (h : GetsOn sys pipe eof left)
    (hinv : Inv pipe eof i s) :
    Returns Always (fun _ => turn sys i) s
      (fun r t => r.elim (fun j => Inv pipe eof j t ∧ toDo pipe left j t < toDo pipe left i s)
        (Done eof · t))
      fun _ _ => False := by
  have hsteady := h.poll i.pollout s
  have hreports := h.reports i.pollout s
  have hon := h.on i.pollout s (by simp [hinv.pollout])
  have hpipe := hechoes.poll i.pollout s
  apply Returns.bind (ask_returns _ _ s)
  rintro ⟨rc, revents⟩ t ⟨hr, ht⟩
  rw [← hr, ← ht] at hon
  rw [← hr] at hreports
  rw [← ht] at hsteady hpipe
  dsimp only at hreports hon
  have hinv : Inv pipe eof i t :=
    hinv.steady hsteady hinv.size (by rw [Waits, hpipe]; exact hinv.waits) hinv.within
      (Nat.le_refl _) rfl
  have hless := hsteady.left
  have hpolled : toDo pipe left i t = toDo pipe left i s - left s + left t := by
    simp only [toDo, hpipe]
    omega
  have hleft : left s ≤ toDo pipe left i s := Nat.le_add_left _ _
  apply Returns.ite
  · intro hrc
    apply Returns.pure
    refine ⟨hinv, ?_⟩
    rcases hon with hfall | hon
    · omega
    · omega
  intro hrc
  obtain ⟨hin, hout, hclosed⟩ := hreports (by omega)
  rw [← hpipe] at hin
  rw [← hpipe, ← hsteady.eof] at hclosed
  have hfirst : Returns Always (fun _ => if revents.pollin then readPart sys i else pure i) t
      (fun j u => Less pipe eof left revents.pollin i t j u ∧ j.pollout = i.pollout)
        fun _ _ => False := by
    apply part_returns
    · intro hact
      rw [hact]
      exact ⟨hinv.idle, rfl⟩
    · intro hact
      rw [hact]
      exact readPart_returns hechoes h hinv (hin hact)
  apply Returns.bind hfirst
  rintro j u ⟨hread, hsame⟩
  have hsecond : Returns Always (fun _ => if revents.pollout then writePart sys j else pure j) u
      (Less pipe eof left revents.pollout j u) fun _ _ => False := by
    apply part_returns
    · intro hact
      rw [hact]
      exact hread.inv.idle
    · intro hact
      rw [hact]
      exact writePart_returns hechoes h hread.inv (hsame.trans (hout hact))
  apply Returns.bind hsecond
  intro k v hwrite
  have hlessr := hread.less
  have hlessw := hwrite.less
  apply Returns.ite
  · rintro ⟨hover, hnotin, hnotout⟩
    obtain ⟨rfl, rfl⟩ := hread.idle (Bool.not_eq_true _ ▸ hnotin)
    obtain ⟨rfl, rfl⟩ := hwrite.idle (Bool.not_eq_true _ ▸ hnotout)
    obtain ⟨heof, hempty⟩ := hclosed hover
    have hended := hinv.ended heof
    obtain ⟨got, htotread, hwaits⟩ := hinv.waits
    rw [hempty, List.length_nil, Nat.add_zero, hended] at hwaits
    exact Returns.pure ⟨hended, htotread.trans (congrArg Int32.ofNat hwaits), heof⟩
  · intro hgoes
    apply Returns.pure
    refine ⟨hwrite.inv, ?_⟩
    have hact : left t < left s ∨ 1 ≤ revents.pollin.toNat + revents.pollout.toNat := by
      rcases hon with hfall | ⟨-, hin | hout | hclosed⟩
      · exact .inl hfall
      · exact .inr (by simp [hin])
      · exact .inr (by simp [hout])
      · right
        by_contra hnone
        apply hgoes
        refine ⟨hclosed, ?_, ?_⟩
        · intro hin
          simp [hin] at hnone
        · intro hout
          simp [hout] at hnone
    omega

theorem conclude_returns (exitcode : Int) (exitsignal : Option String) (hdone : Done eof i s) :
    Returns Always (fun _ => conclude i exitcode exitsignal) s (fun _ t => eof t = true)
      fun _ _ => False := by
  obtain ⟨hwritten, hread, heof⟩ := hdone
  have hshow : Returns Always (fun _ => (showSignal exitsignal : Echo σ Unit)) s (fun _ t => t = s)
      fun _ _ => False := by
    cases exitsignal with
    | some exitsignal => exact told_returns _ s
    | none => exact Returns.pure rfl
  apply Returns.bind hshow
  rintro _ t rfl
  apply Returns.bind (told_returns _ t)
  rintro _ u rfl
  apply Returns.ite
  · intro hne
    exact absurd ((congrArg Int32.ofNat hwritten).trans hread.symm) hne
  · exact fun _ => Returns.pure heof

theorem close_returns (h : GetsOn sys pipe eof left) (heof : eof s = true) :
    Returns Always (fun n => (retry (fun rc => rc = libssh2ErrorEagain)
      sys.channelClose .channelClose
      sys.waitsocket .waitsocket n : Echo σ Int)) s (fun _ t => eof t = true) fun _ _ => False := by
  apply Returns.turns (fun _ s => left s) (fun _ s => eof s = true) _ heof
  intro _ s heof
  obtain ⟨hsteady, hfall⟩ := h.channelClose s
  apply Returns.bind (ask_returns _ _ s)
  rintro rc t ⟨hrc, rfl⟩
  apply Returns.ite
  · intro hagain
    have hwait := h.waitsocket (sys.channelClose s).2
    have hleft := hwait.left
    have hfall := hfall (hrc ▸ of_decide_eq_true hagain)
    apply Returns.bind (ask_returns _ _ _)
    rintro _ u ⟨-, rfl⟩
    apply Returns.pure
    refine ⟨?_, by omega⟩
    rw [hwait.eof, hsteady.eof, heof]
  · exact fun _ => Returns.pure (hsteady.eof.trans heof)

theorem echo_ends (hechoes : Echoes sys pipe) (h : GetsOn sys pipe eof left) (hpipe : pipe s = [])
    (heof : eof s = false) :
    Returns Always (fun n => echo sys n) s (fun _ t => eof t = true) fun _ _ => False := by
  have hstart : Inv pipe eof start s := by
    refine ⟨List.length_replicate, ⟨0, rfl, ?_⟩, Nat.zero_le _, ?_, ?_⟩
    · rw [hpipe]
      rfl
    · rw [heof]
      rfl
    · intro htrue
      rw [heof] at htrue
      cases htrue
  have hexchange : Returns Always (fun n => exchange sys n) s (Done eof) fun _ _ => False :=
    Returns.turns (toDo pipe left) (Inv pipe eof)
      (fun i s hinv => turn_returns hechoes h hinv) hstart
  apply Returns.bind hexchange
  intro i t hdone
  apply Returns.bind (close_returns h hdone.2.2)
  intro rc u hu
  apply Returns.ite
  · intro _
    apply Returns.bind (ask_returns _ _ u)
    rintro exitcode v ⟨-, rfl⟩
    apply Returns.bind (ask_returns _ _ _)
    rintro exitsignal w ⟨-, rfl⟩
    apply conclude_returns
    refine ⟨hdone.1, hdone.2.1, ?_⟩
    rw [h.exitSignal, h.exitStatus, hu]
  · intro _
    apply conclude_returns
    exact ⟨hdone.1, hdone.2.1, hu⟩

/-! ## What was sent -/

/-- The EOF is sent by the log, if it was not sent before. -/
def Ended (eof : σ → Bool) (s : σ) (l : List Event) (t : σ) : Prop :=
  eof t = true → eof s = true ∨ EofSent l

theorem ended_path (eof : σ → Bool) : Path (Ended eof) where
  nil _ := .inl
  append := by
    intro s t u l l' hl hl' hu
    rcases hl' hu with ht | ⟨rc, hrc, hmem⟩
    · rcases hl ht with hs | ⟨rc, hrc, hmem⟩
      · exact .inl hs
      · exact .inr ⟨rc, hrc, List.mem_append_left l' hmem⟩
    · exact .inr ⟨rc, hrc, List.mem_append_right l hmem⟩

theorem ended_of_eof {l : List Event} (h : eof t = eof s) : Ended eof s l t :=
  fun ht => .inl (h ▸ ht)

theorem GetsOn.calls (h : GetsOn sys pipe eof left) : Calls sys (Ended eof) where
  poll pollout s := ended_of_eof (h.poll pollout s).eof
  channelRead s := ended_of_eof (h.channelRead s).1.eof
  channelWrite buf s := ended_of_eof (h.channelWrite buf s).1.eof
  sendEof s := by
    rcases h.sendEof s with ⟨-, heof, -⟩ | ⟨hrc, -, -⟩
    · exact ended_of_eof heof
    · exact fun _ => .inr ⟨_, hrc, List.mem_singleton_self _⟩
  channelClose s := ended_of_eof (h.channelClose s).1.eof
  waitsocket s := ended_of_eof (h.waitsocket s).eof
  exitStatus s := ended_of_eof (h.exitStatus s)
  exitSignal s := ended_of_eof (h.exitSignal s)
  stderr _ _ := ended_of_eof rfl

theorem sent_all {l : List Event} (horder : Throughout Orderly l) (heof : EofSent l) :
    (sentOf l).length = totsize := by
  obtain ⟨rc, -, hmem⟩ := heof
  obtain ⟨before, after, rfl⟩ := List.append_of_mem hmem
  have hwithin := orderly_sent horder
  have hbefore := (horder before _ after rfl).ends rc rfl
  rw [sentOf_append, List.length_append] at hwithin ⊢
  omega

theorem cat_getsOn : GetsOn cat Prod.fst Prod.snd fun _ => 0 where
  poll _ _ := ⟨rfl, Nat.le_refl _⟩
  reports pollout s _ := ⟨of_decide_eq_true, id, of_decide_eq_true⟩
  on pollout s hpollout := by
    refine .inr ⟨Int.le_refl 1, ?_⟩
    by_cases hempty : s.1 = []
    · cases pollout with
      | true => exact .inr (.inl rfl)
      | false => exact .inr (.inr (decide_eq_true ⟨hpollout rfl, hempty⟩))
    · exact .inl (decide_eq_true hempty)
  channelRead s := by
    unfold cat
    dsimp only
    split
    · rename_i hpos
      exact ⟨⟨rfl, Nat.le_refl _⟩, fun _ => .inl (Int.natCast_pos.mpr hpos)⟩
    · rename_i hnone
      refine ⟨⟨rfl, Nat.le_refl _⟩, fun hne => absurd ?_ hnone⟩
      rw [List.length_take]
      exact Nat.lt_min.mpr ⟨by decide, List.length_pos_iff.mpr hne⟩
  channelWrite buf s :=
    ⟨⟨rfl, Nat.le_refl _⟩, fun hne => .inl (Int.natCast_pos.mpr (List.length_pos_iff.mpr hne))⟩
  sendEof _ := .inr ⟨Int.le_refl 0, rfl, Nat.le_refl _⟩
  channelClose _ := ⟨⟨rfl, Nat.le_refl _⟩, nofun⟩
  waitsocket _ := ⟨rfl, Nat.le_refl _⟩
  exitStatus _ := rfl
  exitSignal _ := rfl

end CloudSsh.CompletedEcho
