import CloudSsh.TerminalToRemote

/-!
# The relay loop and the loss of its connection

A read that fails is reported and forgotten: only the end-of-file flag of the channel
ends the loop, and a connection that is cut sets no flag. The loop stops with its
connection exactly when the flag is up at the first test after such a read.
-/
namespace CloudSsh.ConnectionLoss
open EnvironmentPrograms RelayLoop TerminalToRemote

variable {σ : Type}

/-- A read that returns an error other than would-block. -/
def LostIn : Entry σ → Prop
  | (_, .read _ ret _) => Fatal ret
  | _ => False

/-- A test that lets an iteration begin. -/
def Begins : Entry σ → Prop
  | (_, .isEof ret) => ret = 0
  | _ => False

/-- Once a read has failed no iteration begins, and `main` returns with the terminal restored. -/
structure StopsWhenLost (sys : System σ) (s : σ) : Prop where
  no_iteration : ∀ n, (relayMain sys n s).log.Pairwise fun e e' => LostIn e → ¬ Begins e'
  returns : ∀ n, (∃ e ∈ (relayMain sys n s).log, LostIn e) →
    (relayMain sys (n + 1) s).value = some 0 ∧ RestoresTerminal (relayMain sys (n + 1) s).log

/-- The read of the iteration that begins at this boundary fails. -/
def LostAt (sys : System σ) (s : σ) : Prop :=
  Fatal (sys.read obufSize (sys.isEof s).2).1.count

/-- The environment at the `k`-th iteration boundary. -/
abbrev boundaryOf (sys : System σ) (s : σ) (k : ℕ) : σ := boundary (loopTest sys) (loopBody sys) s k

/-- The channel has been found open at every boundary so far. -/
def OpenUntil (sys : System σ) (s : σ) (k : ℕ) : Prop :=
  ∀ j < k, (sys.isEof (boundaryOf sys s j)).1 = 0

/-- Whenever a read fails, the next test finds the channel at its end. -/
def FlagUp (sys : System σ) (s : σ) : Prop :=
  ∀ k, OpenUntil sys s (k + 1) → LostAt sys (boundaryOf sys s k) →
    (sys.isEof (boundaryOf sys s (k + 1))).1 ≠ 0

theorem continues_iff (sys : System σ) (s : σ) (k : ℕ) :
    Continues (loopTest sys) (loopBody sys) s k ↔ OpenUntil sys s k := by
  simp [Continues, OpenUntil]

/-! ## The entries of one iteration -/

theorem lostIn_readRemote (sys : System σ) (s : σ) :
    (∃ e ∈ (readRemote sys s).log, LostIn e) ↔ Fatal (sys.read obufSize s).1.count := by
  rcases readRemote_cases sys s with ⟨bytes, pos, fits, s₁, hr, ho⟩ | ⟨code, nonpos, s₁, hr, ho⟩
  · rw [ho, hr]
    simp [LostIn, ReadResult.count]
  · rw [ho, hr]
    split <;> simp [LostIn, ReadResult.count]

theorem quiet_sendInput (sys : System σ) (s : σ) :
    ∀ e ∈ (sendInput sys s).log, ¬ LostIn e ∧ ¬ Begins e := by
  rcases sendInput_cases sys s with ⟨_, _, ho⟩ | ⟨_, _, _, _, _, _, _, _, ho⟩ |
    ⟨_, _, _, _, st, _, _, _, _, _, _, ho⟩ <;> rw [ho]
  · simp [LostIn, Begins]
  · simp [LostIn, Begins]
  · split <;> simp [LostIn, Begins]

theorem framing_silent {e : Entry σ} (h : Framing e) :
    ¬ LostIn e ∧ ¬ Begins e := by
  obtain ⟨s, ev⟩ := e
  rcases h with rfl | ⟨_, rfl⟩ | ⟨_, rfl⟩ <;> simp [LostIn, Begins]

theorem not_begins_readRemote (sys : System σ) (s : σ) :
    ∀ e ∈ (readRemote sys s).log, ¬ Begins e := by
  rcases readRemote_cases sys s with ⟨bytes, pos, fits, s₁, hr, ho⟩ | ⟨code, nonpos, s₁, hr, ho⟩
  · simp [ho, Begins]
  · rw [ho]
    split <;> simp [Begins]

theorem not_begins_loopBody (sys : System σ) (s : σ) : ∀ e ∈ (loopBody sys s).log, ¬ Begins e := by
  intro e he
  simp only [loopBody, bind_apply, call_apply, List.mem_append, List.mem_singleton] at he
  rcases he with he | he | rfl
  · exact not_begins_readRemote sys s e he
  · exact (quiet_sendInput sys _ e he).2
  · simp [Begins]

theorem lostIn_loopBody (sys : System σ) (s : σ) :
    (∃ e ∈ (loopBody sys s).log, LostIn e) ↔ Fatal (sys.read obufSize s).1.count := by
  rw [← lostIn_readRemote]
  constructor
  · rintro ⟨e, he, hl⟩
    simp only [loopBody, bind_apply, call_apply, List.mem_append, List.mem_singleton] at he
    rcases he with he | he | rfl
    · exact ⟨e, he, hl⟩
    · exact absurd hl (quiet_sendInput sys _ e he).1
    · cases hl
  · rintro ⟨e, he, hl⟩
    exact ⟨e, List.mem_append_left _ he, hl⟩

/-! ## Runs -/

theorem loop_running_iff (sys : System σ) (n : ℕ) (s : σ) :
    (relayLoop sys n s).value = false ↔ OpenUntil sys s n := by
  rw [← continues_iff]
  exact whileLoop_running_iff n s

/-- A run has lost its connection if and only if one of its iterations did. -/
theorem lostIn_relayLoop (sys : System σ) (n : ℕ) (s : σ) :
    (∃ e ∈ (relayLoop sys n s).log, LostIn e) ↔
      ∃ k < n, OpenUntil sys s (k + 1) ∧ LostAt sys (boundaryOf sys s k) := by
  have hopen : ∀ k, OpenUntil sys s (k + 1) ↔
      OpenUntil sys s k ∧ (sys.isEof (boundaryOf sys s k)).1 = 0 := fun k =>
    Nat.forall_lt_succ_right
  constructor
  · rintro ⟨e, he, hl⟩
    obtain ⟨k, hk, hrun, ht | ⟨ht, hb⟩⟩ := mem_whileLoop_log.mp he
    · obtain rfl := List.mem_singleton.mp ht
      cases hl
    · refine ⟨k, hk, (hopen k).mpr ⟨(continues_iff sys s k).mp hrun, by simpa using ht⟩, ?_⟩
      exact (lostIn_loopBody sys _).mp ⟨e, hb, hl⟩
  · rintro ⟨k, hk, ho, hl⟩
    obtain ⟨e, he, hlost⟩ := (lostIn_loopBody sys _).mpr hl
    obtain ⟨hrun, ht⟩ := (hopen k).mp ho
    exact ⟨e, mem_whileLoop_log.mpr ⟨k, hk, (continues_iff sys s k).mpr hrun,
      .inr ⟨by simpa using ht, he⟩⟩, hlost⟩

theorem lostIn_relayMain (sys : System σ) (n : ℕ) (s : σ) :
    (∃ e ∈ (relayMain sys n s).log, LostIn e) ↔ ∃ e ∈ (relayLoop sys n s).log, LostIn e := by
  obtain ⟨before, after, hlog, hbefore, hafter⟩ := relayMain_log sys n s
  rw [hlog]
  constructor
  · rintro ⟨e, he, hl⟩
    simp only [List.mem_append] at he
    rcases he with (he | he) | he
    · exact absurd hl (framing_silent (hbefore e he)).1
    · exact ⟨e, he, hl⟩
    · exact absurd hl (framing_silent (hafter e he)).1
  · rintro ⟨e, he, hl⟩
    exact ⟨e, by simp [he], hl⟩

/-- No iteration begins when the channel is found at its end right away. -/
theorem open_of_begins {sys : System σ} {n : ℕ} {s : σ} {e : Entry σ}
    (he : e ∈ (relayLoop sys n s).log) (hb : Begins e) : (sys.isEof s).1 = 0 := by
  cases n with
  | zero => cases he
  | succ n =>
    by_contra hne
    have ht : (loopTest sys s).value = false := by simpa using hne
    rw [relayLoop, whileLoop_stop ht] at he
    obtain rfl := List.mem_singleton.mp he
    exact hne hb

theorem FlagUp.turn {sys : System σ} {s : σ} (h : FlagUp sys s) (ho : (sys.isEof s).1 = 0) :
    FlagUp sys (turn (loopTest sys) (loopBody sys) s) := by
  intro k hopen hlost
  refine h (k + 1) (fun j hj => ?_) hlost
  cases j with
  | zero => exact ho
  | succ j => exact hopen j (Nat.lt_of_succ_lt_succ hj)

/-- The iteration that loses the connection is the last, by induction on the run. -/
theorem pairwise_relayLoop {sys : System σ} {s : σ} (h : FlagUp sys s) (n : ℕ) :
    (relayLoop sys n s).log.Pairwise fun e e' => LostIn e → ¬ Begins e' := by
  induction n generalizing s with
  | zero => exact .nil
  | succ n ih =>
    cases hv : (loopTest sys s).value with
    | false =>
      rw [relayLoop, whileLoop_stop hv]
      exact List.pairwise_singleton _ _
    | true =>
      have ho : (sys.isEof s).1 = 0 := by simpa using hv
      rw [relayLoop, whileLoop_more hv]
      refine List.pairwise_append.mpr ⟨List.pairwise_singleton _ _, List.pairwise_append.mpr
        ⟨?_, ih (h.turn ho), fun e he e' he' hl hb => ?_⟩, fun e he e' _ hl => ?_⟩
      · exact List.pairwise_of_forall_mem_list fun e _ e' he' _ => not_begins_loopBody sys _ e' he'
      · have hlost : LostAt sys s := (lostIn_loopBody sys _).mp ⟨e, he, hl⟩
        refine h 0 (fun j hj => ?_) hlost (open_of_begins he' hb)
        obtain rfl := Nat.lt_one_iff.mp hj
        exact ho
      · obtain rfl := List.mem_singleton.mp he
        cases hl

/-- What `main` does around the loop loses no connection and begins no iteration. -/
theorem pairwise_relayMain {sys : System σ} {s : σ} (h : FlagUp sys s) (n : ℕ) :
    (relayMain sys n s).log.Pairwise fun e e' => LostIn e → ¬ Begins e' := by
  have hframing : ∀ log : List (Entry σ), (∀ e ∈ log, Framing e) →
      log.Pairwise fun e e' => LostIn e → ¬ Begins e' := fun log hlog =>
    List.pairwise_of_forall_mem_list fun e he _ _ hl => absurd hl (framing_silent (hlog e he)).1
  obtain ⟨before, after, hlog, hbefore, hafter⟩ := relayMain_log sys n s
  rw [hlog, List.pairwise_append, List.pairwise_append]
  refine ⟨⟨hframing before hbefore, pairwise_relayLoop h n, ?_⟩, hframing after hafter, ?_⟩
  · intro e he _ _ hl
    exact absurd hl (framing_silent (hbefore e he)).1
  · intro _ _ e he _
    exact (framing_silent (hafter e he)).2

/-- In every run of `main` the loop stops with its connection if and only if each read that fails
is followed by an end-of-file test that finds the flag up. -/
theorem stopsWhenLost_iff (sys : System σ) (s : σ) : StopsWhenLost sys s ↔ FlagUp sys s := by
  constructor
  · intro h k hopen hlost hflag
    have hmain := (lostIn_relayMain sys (k + 1) s).mpr
      ((lostIn_relayLoop sys (k + 1) s).mpr ⟨k, k.lt_succ_self, hopen, hlost⟩)
    have hrunning : OpenUntil sys s (k + 2) := fun j hj =>
      (Nat.lt_succ_iff_lt_or_eq.mp hj).elim (hopen j) fun he => he ▸ hflag
    have hvalue := (h.returns (k + 1) hmain).1
    rw [relayMain_of_running ((loop_running_iff sys _ s).mpr hrunning)] at hvalue
    cases hvalue
  · intro h
    refine ⟨pairwise_relayMain h, fun n hlost => ?_⟩
    obtain ⟨k, hk, hopen, hl⟩ :=
      (lostIn_relayLoop sys n s).mp ((lostIn_relayMain sys n s).mp hlost)
    have hended : (relayLoop sys (n + 1) s).value = true := by
      rw [← Bool.not_eq_false, loop_running_iff]
      exact fun hall => h k hopen hl (hall (k + 1) (Nat.succ_lt_succ hk))
    rw [relayMain_of_ended hended]
    exact ⟨rfl, _, _, rfl⟩

def libssh2ErrorSocketRecv : Int := -43

theorem fatal_socketRecv : Fatal libssh2ErrorSocketRecv := by decide

/-- The link is cut: every read fails, and no message of the peer sets the flag any more. -/
def cutLink : System Unit where
  isEof _ := (0, ())
  read _ _ := (.failed libssh2ErrorSocketRecv fatal_socketRecv.1.le, ())
  beyond _ := []
  select _ := (0, ())
  getchar _ := (none, ())
  write _ _ := (⟨libssh2ErrorSocketRecv, fatal_socketRecv.1.le.trans zero_le_one⟩, ())
  usleep _ := ()

/-- The loop outlives the link, and forever. -/
theorem cut_link_relayed :
    ¬ StopsWhenLost cutLink () ∧ ∀ n, (relayMain cutLink n ()).value = none := by
  have hrunning : ∀ n, (relayMain cutLink n ()).value = none := fun n =>
    relayMain_of_running ((loop_running_iff cutLink n ()).mpr fun _ _ => rfl)
  refine ⟨fun h => ?_, hrunning⟩
  have hlost : ∃ e ∈ (relayMain cutLink 1 ()).log, LostIn e :=
    ⟨((), .read obufSize libssh2ErrorSocketRecv []), by decide, fatal_socketRecv⟩
  have hvalue := (h.returns 1 hlost).1
  rw [hrunning] at hvalue
  cases hvalue

end CloudSsh.ConnectionLoss
