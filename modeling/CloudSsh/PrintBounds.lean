import CloudSsh.RemoteToTerminal

/-!
# Printing and the end of the read buffer

The print of a read scans for a NUL that only the zero fill behind the delivered bytes
puts there. The scan ends inside the buffer exactly when the read left some of the zero
fill, or delivered a NUL itself.
-/
namespace CloudSsh.PrintBounds
open EnvironmentPrograms RelayLoop RemoteToTerminal

variable {σ : Type}

/-- The index at which the scan of `printf("%s", p)` finds its NUL, in what stands in memory from
`p` on. Every byte up to it is read. -/
def terminatorIndex (memory : List Byte) : ℕ := (cString memory).length

/-- A print that finds its NUL at an index below `obuf.size()`. -/
def StaysInside : Entry σ → Prop
  | (_, .printString obuf beyond) =>
    obuf.length = obufSize ∧ terminatorIndex (obuf ++ beyond) < obuf.length
  | _ => True

/-- A read that leaves some of the zero-filled buffer, or delivers a NUL. -/
def Terminated : Entry σ → Prop
  | (_, .read offered _ bytes) => bytes.length < offered ∨ 0 ∈ bytes
  | _ => True

instance : DecidablePred (Terminated : Entry σ → Prop)
  | (_, .read offered _ bytes) => inferInstanceAs (Decidable (bytes.length < offered ∨ 0 ∈ bytes))
  | (_, .clearBlocking) | (_, .isEof _) | (_, .printString _ _) | (_, .fflush) | (_, .print _)
  | (_, .select _ _ _ _) | (_, .getchar _) | (_, .write _ _) | (_, .usleep _) | (_, .system _) =>
    inferInstanceAs (Decidable True)

@[simp] theorem cString_nil : cString [] = [] := rfl

@[simp] theorem cString_cons (b : Byte) (memory : List Byte) :
    cString (b :: memory) = if b = 0 then [] else b :: cString memory := by
  by_cases hb : b = 0 <;> simp [cString, hb]

theorem cString_append_of_mem {buffer : List Byte} (h : 0 ∈ buffer) (beyond : List Byte) :
    cString (buffer ++ beyond) = cString buffer := by
  induction buffer with
  | nil => simp at h
  | cons b buffer ih =>
    by_cases hb : b = 0
    · simp [hb]
    · have hmem : 0 ∈ buffer := (List.mem_cons.mp h).resolve_left (Ne.symm hb)
      simp [hb, ih hmem]

theorem terminatorIndex_lt {buffer : List Byte} (h : 0 ∈ buffer) :
    terminatorIndex buffer < buffer.length := by
  induction buffer with
  | nil => simp at h
  | cons b buffer ih =>
    by_cases hb : b = 0
    · simp [terminatorIndex, hb]
    · have hmem : 0 ∈ buffer := (List.mem_cons.mp h).resolve_left (Ne.symm hb)
      simpa [terminatorIndex, hb] using ih hmem

/-- The scan ends in the buffer exactly if there is a NUL in it. -/
theorem terminatorIndex_lt_iff (buffer beyond : List Byte) :
    terminatorIndex (buffer ++ beyond) < buffer.length ↔ 0 ∈ buffer := by
  constructor
  · intro hlt
    by_contra h
    rw [terminatorIndex, cString_append h, List.length_append] at hlt
    omega
  · intro h
    rw [terminatorIndex, cString_append_of_mem h]
    exact terminatorIndex_lt h

theorem terminated_iff_mem (bytes : List Byte) :
    bytes.length < obufSize ∨ 0 ∈ bytes ↔
      0 ∈ bytes ++ List.replicate (obufSize - bytes.length) 0 := by
  rw [List.mem_append, List.mem_replicate, or_comm]
  refine or_congr_right ?_
  simp [Nat.sub_ne_zero_iff_lt]

/-- The prints stay inside the buffer, and the reads are terminated, together. -/
def Bounded (log : List (Entry σ)) : Prop :=
  (∀ e ∈ log, StaysInside e) ↔ ∀ e ∈ log, Terminated e

theorem bounded_append (a b : List (Entry σ)) (ha : Bounded a) (hb : Bounded b) :
    Bounded (a ++ b) := by
  unfold Bounded
  rw [List.forall_mem_append, List.forall_mem_append]
  exact and_congr ha hb

/-- Entries that are neither prints nor full reads. -/
private theorem bounded_of_silent {log : List (Entry σ)} (hi : ∀ e ∈ log, StaysInside e)
    (ht : ∀ e ∈ log, Terminated e) : Bounded log := iff_of_true hi ht

theorem bounded_readRemote (sys : System σ) (s : σ) : Bounded (readRemote sys s).log := by
  rcases readRemote_cases sys s with ⟨bytes, pos, fits, s₁, hr, ho⟩ | ⟨code, nonpos, s₁, hr, ho⟩
  · have hsize : (bytes ++ List.replicate (obufSize - bytes.length) 0).length = obufSize := by
      simpa using Nat.add_sub_of_le fits
    have hscan := terminatorIndex_lt_iff (bytes ++ List.replicate (obufSize - bytes.length) 0)
      (sys.beyond s₁)
    rw [hsize, ← terminated_iff_mem bytes] at hscan
    rw [ho]
    simpa [Bounded, StaysInside, Terminated, Nat.add_sub_of_le fits] using hscan
  · rw [ho]
    split <;> exact bounded_of_silent (by simp [StaysInside]) (by simp [Terminated, obufSize])

theorem bounded_sendInput (sys : System σ) (s : σ) : Bounded (sendInput sys s).log := by
  rcases sendInput_cases sys s with ⟨_, _, ho⟩ | ⟨_, _, _, _, _, _, _, _, ho⟩ |
    ⟨_, _, _, _, st, _, _, _, _, _, _, ho⟩ <;> rw [ho]
  · exact bounded_of_silent (by simp [StaysInside]) (by simp [Terminated])
  · exact bounded_of_silent (by simp [StaysInside]) (by simp [Terminated])
  · split <;> exact bounded_of_silent (by simp [StaysInside]) (by simp [Terminated])

theorem bounded_relayLoop (sys : System σ) (n : ℕ) (s : σ) : Bounded (relayLoop sys n s).log := by
  refine relayLoop_log ?_ bounded_append (fun s => ?_) (bounded_readRemote sys)
    (bounded_sendInput sys) (fun s => ?_) n s
  · exact bounded_of_silent (by simp) (by simp)
  · exact bounded_of_silent (by simp [StaysInside]) (by simp [Terminated])
  · exact bounded_of_silent (by simp [StaysInside]) (by simp [Terminated])

theorem bounded_relayMain (sys : System σ) (n : ℕ) (s : σ) : Bounded (relayMain sys n s).log := by
  have hframing : ∀ log : List (Entry σ), (∀ e ∈ log, Framing e) → Bounded log := by
    intro log h
    refine bounded_of_silent (fun e he => ?_) fun e he => ?_
    all_goals
      obtain ⟨s', ev⟩ := e
      rcases h _ he with rfl | ⟨_, rfl⟩ | ⟨_, rfl⟩ <;> trivial
  obtain ⟨before, after, hlog, hbefore, hafter⟩ := relayMain_log sys n s
  rw [hlog]
  exact bounded_append _ _ (bounded_append _ _ (hframing _ hbefore) (bounded_relayLoop sys n s))
    (hframing _ hafter)

/-- In every run of `main` every print stays inside the read buffer if and only if no read fills
the whole buffer without a NUL. -/
theorem stays_inside_iff (sys : System σ) (n : ℕ) (s : σ) :
    (∀ e ∈ (relayMain sys n s).log, StaysInside e) ↔
      ∀ e ∈ (relayMain sys n s).log, Terminated e :=
  bounded_relayMain sys n s

/-- Terminal output without a NUL, as long as the buffer. -/
def fullBytes : List Byte := List.replicate obufSize 97

theorem fullBytes_length : fullBytes.length = obufSize := List.length_replicate

theorem fullBytes_pos : 0 < fullBytes.length := by simp [fullBytes_length, obufSize]

def fullRun : List Answers := [{ read := .stored fullBytes fullBytes_pos fullBytes_length.le }]

theorem read_mem_relayMain {bytes : List Byte} (pos : 0 < bytes.length)
    (fits : bytes.length ≤ obufSize) :
    ([{ read := .stored bytes pos fits }], .read obufSize bytes.length bytes) ∈
      (relayMain replay 1 [{ read := .stored bytes pos fits }]).log := by
  obtain ⟨before, after, hlog, -⟩ := relayMain_log replay 1 [{ read := .stored bytes pos fits }]
  have htest : (loopTest replay [{ read := .stored bytes pos fits }]).value = true := rfl
  rw [hlog, relayLoop, whileLoop_more htest]
  simp [loopBody, readRemote, replay, ReadResult.count, ReadResult.bytes]

/-- One read that fills the buffer. -/
theorem full_read_leaves_buffer : ¬ ∀ e ∈ (relayMain replay 1 fullRun).log, StaysInside e := by
  intro h
  have hread := (bounded_relayMain replay 1 fullRun).mp h _
    (read_mem_relayMain fullBytes_pos fullBytes_length.le)
  simp [Terminated, fullBytes] at hread

end CloudSsh.PrintBounds
