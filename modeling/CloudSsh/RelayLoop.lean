import CloudSsh.EnvironmentPrograms
import Mathlib.Algebra.Order.Ring.Int
import Mathlib.Data.Vector.Basic

/-!
# The relay loop of the client

The loop of `ssh.cpp` against an arbitrary system: the channel, the keyboard, the
clock and the memory behind the read buffer answer as they like, within the types
of their results. Every call is logged together with the state it was made in.
-/
namespace CloudSsh.RelayLoop
open EnvironmentPrograms

abbrev Byte := UInt8

def libssh2ErrorEagain : Int := -37

theorem libssh2ErrorEagain_nonpos : libssh2ErrorEagain ≤ 0 := by decide

def stdinFileno : ℕ := 0

/-- The length of `obuf`. -/
def obufSize : ℕ := 65536

/-- A read that was offered `len` bytes either stores some of them or stores nothing and
returns a code that is not positive. -/
inductive ReadResult (len : ℕ) where
  | failed (code : Int) (nonpos : code ≤ 0)
  | stored (bytes : List Byte) (pos : 0 < bytes.length) (fits : bytes.length ≤ len)

namespace ReadResult
variable {len : ℕ}

def count : ReadResult len → Int
  | .failed code _ => code
  | .stored bytes _ _ => bytes.length

def bytes : ReadResult len → List Byte
  | .failed _ _ => []
  | .stored bytes _ _ => bytes

theorem bytes_fit (r : ReadResult len) : r.bytes.length ≤ len := by
  cases r with
  | failed code nonpos => exact Nat.zero_le len
  | stored bytes pos fits => exact fits

theorem count_toNat (r : ReadResult len) : r.count.toNat = r.bytes.length := by
  cases r with
  | failed code nonpos => exact Int.toNat_of_nonpos nonpos
  | stored bytes pos fits => exact Int.toNat_natCast _

theorem bytes_eq_nil {r : ReadResult len} (h : ¬ r.count > 0) : r.bytes = [] := by
  apply List.eq_nil_of_length_eq_zero
  rw [← count_toNat]
  omega

/-- What a read adds to an `int` that counts bytes. -/
theorem int32_count {r : ReadResult len} (h : 0 ≤ r.count) :
    Int32.ofInt r.count = Int32.ofNat r.bytes.length := by
  rw [← count_toNat, ← Int32.ofInt_eq_ofNat, Int.toNat_of_nonneg h]

/-- The buffer afterwards: the bytes stand at its start, the rest is untouched. -/
def fill (r : ReadResult len) (out : List.Vector Byte len) : List.Vector Byte len :=
  ⟨r.bytes ++ out.toList.drop r.bytes.length, by
    have h := r.bytes_fit
    simp
    omega⟩

@[simp] theorem fill_toList (r : ReadResult len) (out : List.Vector Byte len) :
    (r.fill out).toList = r.bytes ++ out.toList.drop r.bytes.length := rfl

end ReadResult

/-- A write of one byte accepts it (1), accepts nothing (0), or reports a negative code. -/
abbrev WriteResult := {st : Int // st ≤ 1}

/-- The byte was taken. -/
def byteWritten : WriteResult := ⟨1, le_rfl⟩

/-- What the loop can ask of the world. `getchar` answers `none` at end of input; `beyond` is
what stands in memory right behind the read buffer. -/
structure System (σ : Type) where
  isEof : σ → Int × σ
  read : (len : ℕ) → σ → ReadResult len × σ
  beyond : σ → List Byte
  select : σ → Int × σ
  getchar : σ → Option Byte × σ
  write : Byte → σ → WriteResult × σ
  usleep : σ → σ

inductive Event where
  | clearBlocking
  | isEof (ret : Int)
  | read (offered : ℕ) (ret : Int) (bytes : List Byte)
  | printString (obuf beyond : List Byte)
  | fflush
  | print (text : String)
  | select (nfds : ℕ) (readfds : List ℕ) (timeout : ℕ × ℕ) (ret : Int)
  | getchar (ret : Option Byte)
  | write (c : Byte) (ret : Int)
  | usleep (usec : ℕ)
  | system (command : String)
  deriving DecidableEq

/-- The call together with the state of the world it was made in. -/
abbrev Entry (σ : Type) := σ × Event

abbrev Relay (σ : Type) := Program σ (Entry σ)

/-- What `printf("%s", p)` emits when `memory` stands at `p`. -/
def cString (memory : List Byte) : List Byte := memory.takeWhile (· ≠ 0)

/-- The `int` that `getchar` returns. -/
def intOfKey : Option Byte → Int
  | none => -1
  | some b => b.toNat

/-- The conversion `char(c)`. -/
def charOfInt (c : Int) : Byte := UInt8.ofNat c.toNat

variable {σ : Type}

def isEof (sys : System σ) : Relay σ Int := call sys.isEof Event.isEof

/-- `Channel::read`: the whole vector is offered; the count and the vector come back. -/
def read (sys : System σ) {size : ℕ} (out : List.Vector Byte size) :
    Relay σ (Int × List.Vector Byte size) := do
  let r ← call (sys.read size) (fun r => Event.read size r.count r.bytes)
  pure (r.count, r.fill out)

/-- `Channel::write(char)`. -/
def write (sys : System σ) (c : Byte) : Relay σ Int := do
  let st ← call (sys.write c) (fun st => Event.write c st.1)
  pure st.1

def getchar (sys : System σ) : Relay σ Int := do
  let key ← call sys.getchar Event.getchar
  pure (intOfKey key)

/-- `FD_SET` puts descriptor 0 into the set before every call, whatever the last one left there,
and the timeout is zero. -/
def select (sys : System σ) : Relay σ Int :=
  call sys.select (Event.select 1 [stdinFileno] (0, 0))

def printString (sys : System σ) {size : ℕ} (obuf : List.Vector Byte size) : Relay σ Unit := do
  let beyond ← look sys.beyond
  emit (.printString obuf.toList beyond)

/-- Read from the channel and output it to the terminal. -/
def readRemote (sys : System σ) : Relay σ Unit := do
  let obuf := List.Vector.replicate obufSize 0
  let (nObufRead, obuf) ← read sys obuf
  if nObufRead > 0 then
    printString sys obuf
    emit .fflush
  if nObufRead < 0 ∧ nObufRead ≠ libssh2ErrorEagain then
    emit (.print s!"RE({nObufRead})")

/-- Input from the keyboard, sent to the channel. -/
def sendInput (sys : System σ) : Relay σ Unit := do
  -- `if(select(..))`: an error, which is -1, passes this test too
  if (← select sys) ≠ 0 then
    let c ← getchar sys
    if c > 0 then
      let st ← write sys (charOfInt c)
      if st < 0 then
        emit (.print s!"WE({st})")

def loopTest (sys : System σ) : Relay σ Bool := do
  pure ((← isEof sys) == 0)

def loopBody (sys : System σ) : Relay σ Unit := do
  readRemote sys
  sendInput sys
  call (fun s => ((), sys.usleep s)) (fun _ => .usleep 16667)

/-- The loop, for at most `n` iterations; the value says whether it has ended. -/
def relayLoop (sys : System σ) (n : ℕ) : Relay σ Bool :=
  whileLoop (loopTest sys) (loopBody sys) n

/-- `main` once it holds a channel. The exit status is there when the loop has ended. -/
def relayMain (sys : System σ) (n : ℕ) : Relay σ (Option Int) := do
  emit .clearBlocking
  emit (.system "stty -echo")
  emit (.system "stty -icanon")
  emit (.print "Ready...\n")
  if ← relayLoop sys n then
    emit (.print "Disconnected.\n")
    emit (.system "stty echo")
    emit (.system "stty icanon")
    pure (some 0)
  else
    pure none

/-- The last that `main` does is to restore the terminal. -/
def RestoresTerminal (log : List (Entry σ)) : Prop :=
  ∃ before s, log = before ++ [(s, .print "Disconnected.\n"), (s, .system "stty echo"),
    (s, .system "stty icanon")]

@[simp] theorem loopTest_apply (sys : System σ) (s : σ) :
    loopTest sys s =
      ⟨(sys.isEof s).1 == 0, (sys.isEof s).2, [(s, .isEof (sys.isEof s).1)]⟩ := rfl

@[simp] theorem read_apply (sys : System σ) {size : ℕ} (out : List.Vector Byte size) (s : σ) :
    read sys out s = ⟨((sys.read size s).1.count, (sys.read size s).1.fill out),
      (sys.read size s).2,
      [(s, .read size (sys.read size s).1.count (sys.read size s).1.bytes)]⟩ := rfl

theorem zeroFilled_toList (size : ℕ) :
    (List.Vector.replicate size (0 : Byte)).toList = List.replicate size 0 := rfl

/-- All that one pass over the remote half can do: print a counted read as a string, or report
a code unless it is 0 or would-block. -/
theorem readRemote_cases (sys : System σ) (s : σ) :
    (∃ bytes pos fits s₁, sys.read obufSize s = (.stored bytes pos fits, s₁) ∧
      readRemote sys s = ⟨(), s₁,
        [(s, .read obufSize bytes.length bytes),
         (s₁, .printString (bytes ++ List.replicate (obufSize - bytes.length) 0) (sys.beyond s₁)),
         (s₁, .fflush)]⟩) ∨
    (∃ code nonpos s₁, sys.read obufSize s = (.failed code nonpos, s₁) ∧
      readRemote sys s = ⟨(), s₁, (s, .read obufSize code []) ::
        if code < 0 ∧ code ≠ libssh2ErrorEagain then [(s₁, .print s!"RE({code})")] else []⟩) := by
  rcases h : sys.read obufSize s with ⟨r, s₁⟩
  cases r with
  | failed code nonpos =>
    refine .inr ⟨code, nonpos, s₁, rfl, ?_⟩
    by_cases he : code < 0 ∧ code ≠ libssh2ErrorEagain <;>
      simp [readRemote, h, ReadResult.count, ReadResult.bytes, nonpos.not_gt, he]
  | stored bytes pos fits =>
    refine .inl ⟨bytes, pos, fits, s₁, rfl, ?_⟩
    have hn : ¬ (bytes.length : Int) < 0 := by omega
    simp [readRemote, printString, h, ReadResult.count, ReadResult.bytes, pos, hn,
      zeroFilled_toList, List.drop_replicate]

/-- All that one pass over the keyboard half can do: nothing beyond the readiness test, a key
that is not forwarded, or a key that is offered to the channel once. -/
theorem sendInput_cases (sys : System σ) (s : σ) :
    (∃ s₁, sys.select s = (0, s₁) ∧
      sendInput sys s = ⟨(), s₁, [(s, .select 1 [stdinFileno] (0, 0) 0)]⟩) ∨
    (∃ ready s₁ key s₂, sys.select s = (ready, s₁) ∧ ready ≠ 0 ∧ sys.getchar s₁ = (key, s₂) ∧
      (key = none ∨ key = some 0) ∧
      sendInput sys s = ⟨(), s₂,
        [(s, .select 1 [stdinFileno] (0, 0) ready), (s₁, .getchar key)]⟩) ∨
    (∃ ready s₁ c s₂ st s₃, sys.select s = (ready, s₁) ∧ ready ≠ 0 ∧
      sys.getchar s₁ = (some c, s₂) ∧ c ≠ 0 ∧ sys.write c s₂ = (st, s₃) ∧
      sendInput sys s = ⟨(), s₃, (s, .select 1 [stdinFileno] (0, 0) ready) ::
        (s₁, .getchar (some c)) :: (s₂, .write c st.1) ::
          if st.1 < 0 then [(s₃, .print s!"WE({st.1})")] else []⟩) := by
  rcases h₁ : sys.select s with ⟨ready, s₁⟩
  by_cases hr : ready = 0
  · subst hr
    exact .inl ⟨s₁, rfl, by simp [sendInput, select, h₁]⟩
  refine .inr ?_
  rcases h₂ : sys.getchar s₁ with ⟨key, s₂⟩
  by_cases hk : key = none ∨ key = some 0
  · refine .inl ⟨ready, s₁, key, s₂, rfl, hr, h₂, hk, ?_⟩
    rcases hk with rfl | rfl <;> simp [sendInput, select, getchar, intOfKey, h₁, h₂, hr]
  · rw [not_or] at hk
    obtain ⟨c, rfl⟩ := Option.ne_none_iff_exists'.mp hk.1
    have hc : c ≠ 0 := fun he => hk.2 (congrArg some he)
    have hpos : 0 < c.toNat := Nat.pos_of_ne_zero fun he => hc (UInt8.toNat_inj.mp he)
    rcases h₃ : sys.write c s₂ with ⟨st, s₃⟩
    refine .inr ⟨ready, s₁, c, s₂, st, s₃, rfl, hr, h₂, hc, h₃, ?_⟩
    by_cases hs : st.1 < 0 <;>
      simp [sendInput, select, getchar, write, intOfKey, charOfInt, h₁, h₂, h₃, hr, hpos, hs]

theorem relayMain_of_running {sys : System σ} {n : ℕ} {s : σ}
    (h : (relayLoop sys n s).value = false) : (relayMain sys n s).value = none := by
  simp [relayMain, h]

theorem relayMain_of_ended {sys : System σ} {n : ℕ} {s : σ}
    (h : (relayLoop sys n s).value = true) :
    relayMain sys n s = ⟨some 0, (relayLoop sys n s).env,
      [(s, .clearBlocking), (s, .system "stty -echo"), (s, .system "stty -icanon"),
        (s, .print "Ready...\n")] ++ (relayLoop sys n s).log ++
      [((relayLoop sys n s).env, .print "Disconnected.\n"),
        ((relayLoop sys n s).env, .system "stty echo"),
        ((relayLoop sys n s).env, .system "stty icanon")]⟩ := by
  simp [relayMain, h]

/-- An entry outside the loop: a command, or a line of the program's own. -/
def Framing (e : Entry σ) : Prop :=
  e.2 = .clearBlocking ∨ (∃ command, e.2 = .system command) ∨ ∃ text, e.2 = .print text

theorem relayMain_log (sys : System σ) (n : ℕ) (s : σ) :
    ∃ before after, (relayMain sys n s).log = before ++ (relayLoop sys n s).log ++ after ∧
      (∀ e ∈ before, Framing e) ∧ ∀ e ∈ after, Framing e := by
  cases h : (relayLoop sys n s).value with
  | true => exact ⟨_, _, by rw [relayMain_of_ended h], by simp [Framing], by simp [Framing]⟩
  | false =>
    refine ⟨[(s, .clearBlocking), (s, .system "stty -echo"), (s, .system "stty -icanon"),
      (s, .print "Ready...\n")], [], ?_, by simp [Framing], by simp⟩
    simp [relayMain, h]

/-- What one end-of-file test, either half of the body and the pause behind them preserve, every
run of the loop preserves. -/
theorem relayLoop_keeps {I : σ → List (Entry σ) → Prop} {sys : System σ}
    (hEof : Keeps I (isEof sys)) (hRead : Keeps I (readRemote sys))
    (hSend : Keeps I (sendInput sys))
    (hSleep : Keeps I (call (fun s => ((), sys.usleep s)) fun _ => .usleep 16667)) (n : ℕ) :
    Keeps I (relayLoop sys n) :=
  .whileLoop (hEof.bind fun _ => .pure _) (hRead.bind fun _ => hSend.bind fun _ => hSleep) n

/-- The same for a property of logs that concatenation respects. -/
theorem relayLoop_log {P : List (Entry σ) → Prop} {sys : System σ}
    (nil : P []) (append : ∀ a b, P a → P b → P (a ++ b))
    (hEof : ∀ s, P [(s, .isEof (sys.isEof s).1)]) (hRead : ∀ s, P (readRemote sys s).log)
    (hSend : ∀ s, P (sendInput sys s).log) (hSleep : ∀ s, P [(s, .usleep 16667)])
    (n : ℕ) (s : σ) : P (relayLoop sys n s).log := by
  have h := relayLoop_keeps (I := fun _ l => P l) (fun s l hl => append l _ hl (hEof s))
    (fun s l hl => append l _ hl (hRead s)) (fun s l hl => append l _ hl (hSend s))
    (fun s l hl => append l _ hl (hSleep s)) n s [] nil
  simpa using h

/-! ## Systems that replay a fixed sequence of answers -/

/-- What one iteration is told. -/
structure Answers where
  isEof : Int := 0
  read : ReadResult obufSize := .failed libssh2ErrorEagain libssh2ErrorEagain_nonpos
  beyond : List Byte := []
  select : Int := 0
  getchar : Option Byte := none
  write : WriteResult := byteWritten

/-- Answer each iteration from the head of the list; behind its end the channel is at its end. -/
def replay : System (List Answers) where
  isEof s := ((s.head?.map Answers.isEof).getD 1, s)
  read len s := match s with
    | a :: _ => if h : len = obufSize then (h ▸ a.read, s) else (.failed 0 le_rfl, s)
    | [] => (.failed 0 le_rfl, s)
  beyond s := (s.head?.map Answers.beyond).getD []
  select s := ((s.head?.map Answers.select).getD 0, s)
  getchar s := ((s.head?.map Answers.getchar).getD none, s)
  write _ s := ((s.head?.map Answers.write).getD ⟨0, by decide⟩, s)
  usleep s := s.tail

end CloudSsh.RelayLoop
