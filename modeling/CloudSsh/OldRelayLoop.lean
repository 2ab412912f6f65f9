import CloudSsh.PrintBounds

/-!
# The relay loop of the older client

The loop of `ssh.old.cpp` keeps the result of a read in a `size_t`, where every negative
code is a large count. It then prints a buffer that the read has left zero-filled, so
that nothing is shown, and both loops do the same to the channel and to stdout.
-/
namespace CloudSsh.OldRelayLoop
open EnvironmentPrograms RemoteToTerminal PrintBounds
open RelayLoop (Byte System Event Entry Relay obufSize read isEof select getchar write printString
  charOfInt)

variable {σ : Type}

/-- The conversion of a read result to `size_t`. -/
def sizeOfResult (ret : Int) : UInt64 := UInt64.ofInt ret

def readRemote (sys : System σ) : Relay σ Unit := do
  let obuf := List.Vector.replicate obufSize 0
  let (ret, obuf) ← read sys obuf
  let nObufRead := sizeOfResult ret
  if nObufRead > 0 then
    printString sys obuf
    emit .fflush
  -- no unsigned number is below zero
  if nObufRead < 0 then
    emit (.print "read error")

def sendInput (sys : System σ) : Relay σ Unit := do
  if (← select sys) ≠ 0 then
    let c ← getchar sys
    if c > 0 then
      let st ← write sys (charOfInt c)
      if st < 0 then
        emit (.print "write error")

def loopTest (sys : System σ) : Relay σ Bool := do
  pure ((← isEof sys) == 0)

def loopBody (sys : System σ) : Relay σ Unit := do
  readRemote sys
  sendInput sys
  call (fun s => ((), sys.usleep s)) (fun _ => .usleep 16667)

/-- The loop, for at most `n` iterations; the value says whether it has ended. -/
def relayLoop (sys : System σ) (n : ℕ) : Relay σ Bool :=
  whileLoop (loopTest sys) (loopBody sys) n

theorem sizeOfResult_pos {n : ℕ} (hpos : 0 < n) (hfits : n ≤ obufSize) :
    0 < sizeOfResult (n : Int) := by
  have hlt : n < 2 ^ 64 := hfits.trans_lt (by simp [obufSize])
  rw [UInt64.lt_iff_toNat_lt]
  simp only [sizeOfResult, UInt64.ofInt, UInt64.toNat_ofNat', UInt64.toNat_zero]
  omega

variable (sys : System σ) {s s₁ : σ}

/-- A counted read is printed as in the newer loop. -/
theorem readRemote_stored {bytes : List Byte} {pos : 0 < bytes.length}
    {fits : bytes.length ≤ obufSize} (h : sys.read obufSize s = (.stored bytes pos fits, s₁)) :
    readRemote sys s = ⟨(), s₁,
      [(s, .read obufSize bytes.length bytes),
        (s₁, .printString (bytes ++ List.replicate (obufSize - bytes.length) 0) (sys.beyond s₁)),
        (s₁, .fflush)]⟩ := by
  simp [readRemote, printString, h, RelayLoop.ReadResult.count, RelayLoop.ReadResult.bytes,
    sizeOfResult_pos pos fits, RelayLoop.zeroFilled_toList, List.drop_replicate]

/-- A code is printed as if it were a count, but nothing was stored. -/
theorem readRemote_failed {code : Int} {nonpos : code ≤ 0}
    (h : sys.read obufSize s = (.failed code nonpos, s₁)) :
    readRemote sys s = ⟨(), s₁, (s, .read obufSize code []) ::
      if 0 < sizeOfResult code then
        [(s₁, .printString (List.replicate obufSize 0) (sys.beyond s₁)), (s₁, .fflush)]
      else []⟩ := by
  by_cases hp : 0 < sizeOfResult code <;>
    simp [readRemote, printString, h, RelayLoop.ReadResult.count, RelayLoop.ReadResult.bytes, hp,
      RelayLoop.zeroFilled_toList]

/-! ## Both loops side by side -/

def isCall : Event → Bool
  | .isEof _ | .read _ _ _ | .select _ _ _ _ | .getchar _ | .write _ _ | .usleep _ => true
  | _ => false

/-- The calls of a run, each with its arguments, its answer and the state it was made in. -/
def calls (log : List (Entry σ)) : List (Entry σ) := log.filter fun e => isCall e.2

/-- The iterations that a run has completed: each ends with a pause. -/
def iterations (log : List (Entry σ)) : ℕ := log.countP fun e => e.2 matches .usleep _

/-- The same calls, and, where no read fills the buffer without a NUL, the same remote data on
stdout. -/
structure Alike (new old : List (Entry σ)) : Prop where
  calls_eq : calls old = calls new
  emitted_eq : (∀ e ∈ new, Terminated e) → old.flatMap emitted = new.flatMap emitted

theorem composes_alike : Composes (Alike (σ := σ)) where
  refl l := ⟨rfl, fun _ => rfl⟩
  append h h' := by
    refine ⟨?_, fun ht => ?_⟩
    · simp only [calls, List.filter_append]
      exact congrArg₂ _ h.calls_eq h'.calls_eq
    · rw [List.forall_mem_append] at ht
      rw [List.flatMap_append, List.flatMap_append, h.emitted_eq ht.1, h'.emitted_eq ht.2]

theorem iterations_calls (log : List (Entry σ)) : iterations (calls log) = iterations log := by
  rw [iterations, calls, List.countP_filter, iterations]
  refine List.countP_congr fun e _ => ?_
  obtain ⟨s, ev⟩ := e
  cases ev <;> simp [isCall]

/-- A buffer of zeros shows nothing, whatever stands behind it. -/
theorem cString_zeros {n : ℕ} (h : 0 < n) (beyond : List Byte) :
    RelayLoop.cString (List.replicate n 0 ++ beyond) = [] := by
  cases n with
  | zero => cases h
  | succ n => simp [List.replicate_succ]

/-- The remote half: where the newer loop reports a code, or says nothing of it, the older one
prints a buffer of zeros. -/
theorem agrees_readRemote (sys : System σ) (beyond : σ → List Byte) :
    Agrees Alike (RelayLoop.readRemote sys) (readRemote { sys with beyond }) := by
  intro s
  rcases RelayLoop.readRemote_cases sys s with
    ⟨bytes, pos, fits, s₁, hr, hnew⟩ | ⟨code, nonpos, s₁, hr, hnew⟩
  · rw [hnew, readRemote_stored { sys with beyond } hr]
    refine ⟨rfl, rfl, rfl, fun ht => ?_⟩
    have hmem : 0 ∈ bytes ++ List.replicate (obufSize - bytes.length) 0 :=
      (terminated_iff_mem bytes).mp (ht _ (List.mem_cons_self ..))
    simp only [List.flatMap_cons, emitted, cString_append_of_mem hmem]
  · rw [hnew, readRemote_failed { sys with beyond } hr]
    refine ⟨rfl, rfl, ?_, fun _ => ?_⟩
    · split <;> split <;> rfl
    · have hzero := cString_zeros (n := obufSize) (Nat.succ_pos 65535) (beyond s₁)
      split <;> split <;> simp [emitted, hzero]

theorem agrees_sendInput (sys : System σ) (beyond : σ → List Byte) :
    Agrees Alike (RelayLoop.sendInput sys) (sendInput { sys with beyond }) := by
  have hR : Composes (Alike (σ := σ)) := composes_alike
  apply Agrees.bind hR (.refl hR _)
  intro ready
  refine .ite (.bind hR (.refl hR _) fun c => .ite ?_ (.refl hR _)) (.refl hR _)
  apply Agrees.bind hR (.refl hR _)
  intro st
  refine .ite (fun s => ⟨rfl, rfl, rfl, fun _ => rfl⟩) (.refl hR _)

/-- Both loops run alike, for any number of iterations. -/
theorem agrees_relayLoop (sys : System σ) (beyond : σ → List Byte) (n : ℕ) :
    Agrees Alike (RelayLoop.relayLoop sys n) (relayLoop { sys with beyond } n) := by
  have hR : Composes (Alike (σ := σ)) := composes_alike
  refine .whileLoop hR (.refl hR _) ?_ n
  exact .bind hR (agrees_readRemote sys beyond) fun _ =>
    .bind hR (agrees_sendInput sys beyond) fun _ => .refl hR _

/-- Against the same environment, with whatever memory behind their buffers, the loops end
together after equally many iterations and the same calls, and have shown the same remote data. -/
theorem loops_agree (sys : System σ) (beyond : σ → List Byte) (n : ℕ) (s : σ)
    (hread : ∀ e ∈ (RelayLoop.relayLoop sys n s).log, Terminated e) :
    let new := RelayLoop.relayLoop sys n s
    let old := relayLoop { sys with beyond } n s
    old.value = new.value ∧ old.env = new.env ∧ iterations old.log = iterations new.log ∧
      calls old.log = calls new.log ∧ old.log.flatMap emitted = new.log.flatMap emitted := by
  obtain ⟨hvalue, henv, hlog⟩ := agrees_relayLoop sys beyond n s
  refine ⟨hvalue.symm, henv.symm, ?_, hlog.calls_eq, hlog.emitted_eq hread⟩
  rw [← iterations_calls, hlog.calls_eq, iterations_calls]

/-- A transport error, then two bytes of output while a key is typed, then the end. -/
def errorThenKey : List RelayLoop.Answers :=
  [{ read := .failed (-43) (by decide) },
    { read := .stored [104, 105] (Nat.succ_pos 1) (by decide), select := 1, getchar := some 120 }]

theorem loops_agree_after_error :
    let new := RelayLoop.relayLoop RelayLoop.replay 3 errorThenKey
    let old := relayLoop { RelayLoop.replay with beyond := fun _ => [33] } 3 errorThenKey
    old.value = new.value ∧ old.env = new.env ∧ iterations old.log = iterations new.log ∧
      calls old.log = calls new.log ∧ old.log.flatMap emitted = new.log.flatMap emitted :=
  loops_agree RelayLoop.replay (fun _ => [33]) 3 errorThenKey (by decide)

end CloudSsh.OldRelayLoop
