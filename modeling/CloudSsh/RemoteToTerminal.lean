import CloudSsh.RelayLoop
import Mathlib.Data.List.TakeWhile

/-!
# From the channel to the terminal

The remote half of the loop prints a counted buffer as a NUL-terminated string. The
bytes delivered by the reads and the bytes put on stdout are two accounts of one log,
and they agree exactly when no read delivers a NUL and none fills the whole buffer
with a string that memory continues.
-/
namespace CloudSsh.RemoteToTerminal
open EnvironmentPrograms RelayLoop

variable {σ : Type}

/-- The remote bytes that an entry brings in. -/
def delivered : Entry σ → List Byte
  | (_, .read _ _ bytes) => bytes
  | _ => []

/-- The remote bytes that an entry puts on stdout. Diagnostics are not among them. -/
def emitted : Entry σ → List Byte
  | (_, .printString obuf beyond) => cString (obuf ++ beyond)
  | _ => []

/-- Stdout shows the concatenation of what the reads delivered. -/
def ShowsDelivered (log : List (Entry σ)) : Prop := log.flatMap emitted = log.flatMap delivered

instance (log : List (Entry σ)) : Decidable (ShowsDelivered log) :=
  inferInstanceAs (Decidable (_ = _))

/-- A read that the print behind it can do justice to: its bytes hold no NUL, and if they fill
the buffer then a NUL happens to stand right behind it. -/
def Printable (sys : System σ) : Entry σ → Prop
  | (s, .read _ _ bytes) => 0 ∉ bytes ∧
      (bytes.length = obufSize → cString (sys.beyond (sys.read obufSize s).2) = [])
  | _ => True

theorem not_mem_cString (memory : List Byte) : 0 ∉ cString memory := by
  intro h
  simpa using List.mem_takeWhile_imp h

theorem cString_append {l : List Byte} (h : 0 ∉ l) (memory : List Byte) :
    cString (l ++ memory) = l ++ cString memory := by
  refine List.takeWhile_append_of_pos fun a ha => ?_
  have hne : a ≠ 0 := fun he => h (he ▸ ha)
  simpa using hne

/-- Behind the delivered bytes the scan stops at the first byte of zero fill, and runs on into
memory only when there is none. -/
theorem cString_buffer {bytes : List Byte} (h : 0 ∉ bytes) (fits : bytes.length ≤ obufSize)
    (beyond : List Byte) :
    cString (bytes ++ List.replicate (obufSize - bytes.length) 0 ++ beyond) =
      bytes ++ if bytes.length = obufSize then cString beyond else [] := by
  rw [List.append_assoc, cString_append h]
  congr 1
  split
  next he => simp [he]
  next hne =>
    obtain ⟨k, hk⟩ : ∃ k, obufSize - bytes.length = k + 1 :=
      Nat.exists_eq_succ_of_ne_zero (by omega)
    simp [hk, List.replicate_succ, cString]

/-- As long as no NUL was delivered, what was delivered is the lower account of what was shown. -/
def Accounted (sys : System σ) (log : List (Entry σ)) : Prop :=
  0 ∉ log.flatMap emitted ∧
    (0 ∉ log.flatMap delivered → Accounts emitted delivered (Printable sys) log)

theorem accounted_append (sys : System σ) (a b : List (Entry σ)) (ha : Accounted sys a)
    (hb : Accounted sys b) : Accounted sys (a ++ b) := by
  refine ⟨by simpa using ⟨by simpa using ha.1, by simpa using hb.1⟩, fun h => ?_⟩
  rw [List.flatMap_append, List.mem_append, not_or] at h
  exact (ha.2 h.1).append (hb.2 h.2)

/-- Entries that neither deliver nor show anything. -/
private theorem accounted_of_silent (sys : System σ) {log : List (Entry σ)}
    (he : ∀ e ∈ log, emitted e = []) (hd : ∀ e ∈ log, delivered e = [])
    (hp : ∀ e ∈ log, Printable sys e) : Accounted sys log := by
  have he' : log.flatMap emitted = [] := List.flatMap_eq_nil_iff.mpr he
  have hd' : log.flatMap delivered = [] := List.flatMap_eq_nil_iff.mpr hd
  exact ⟨by simp [he'], fun _ => ⟨by simp [hd'], fun _ => by rw [he', hd'], fun h => absurd hp h⟩⟩

theorem accounted_readRemote (sys : System σ) (s : σ) : Accounted sys (readRemote sys s).log := by
  rcases readRemote_cases sys s with ⟨bytes, pos, fits, s₁, hr, ho⟩ | ⟨code, nonpos, s₁, hr, ho⟩
  · rw [ho]
    refine ⟨by simpa [emitted] using not_mem_cString _, fun h => ?_⟩
    have hb : 0 ∉ bytes := by simpa [delivered] using h
    have hs := cString_buffer hb fits (sys.beyond s₁)
    simp only [List.append_assoc] at hs
    constructor
    · simp [emitted, delivered, hs]
    · intro hgood
      have hp := hgood _ (List.mem_cons_self ..)
      simp only [Printable, hr] at hp
      simpa [emitted, delivered, hs] using hp.2
    · intro hbad
      -- a print that is not faithful has run past the end of the buffer
      have hp : bytes.length = obufSize ∧ cString (sys.beyond s₁) ≠ [] := by
        simpa [Printable, hr, hb] using hbad
      rw [if_pos hp.1] at hs
      simpa [emitted, delivered, hs] using List.length_pos_iff.mpr hp.2
  · rw [ho]
    split <;> exact accounted_of_silent sys (by simp [emitted]) (by simp [delivered])
      (by simp [Printable, obufSize])

theorem accounted_sendInput (sys : System σ) (s : σ) : Accounted sys (sendInput sys s).log := by
  rcases sendInput_cases sys s with ⟨_, _, ho⟩ | ⟨_, _, _, _, _, _, _, _, ho⟩ |
    ⟨_, _, _, _, st, _, _, _, _, _, _, ho⟩ <;> rw [ho]
  · exact accounted_of_silent sys (by simp [emitted]) (by simp [delivered]) (by simp [Printable])
  · exact accounted_of_silent sys (by simp [emitted]) (by simp [delivered]) (by simp [Printable])
  · split <;> exact accounted_of_silent sys (by simp [emitted]) (by simp [delivered])
      (by simp [Printable])

theorem accounted_relayLoop (sys : System σ) (n : ℕ) (s : σ) :
    Accounted sys (relayLoop sys n s).log := by
  refine relayLoop_log ?_ (accounted_append sys) (fun s => ?_) (accounted_readRemote sys)
    (accounted_sendInput sys) (fun s => ?_) n s
  · exact ⟨by simp, fun _ => .nil⟩
  · exact accounted_of_silent sys (by simp [emitted]) (by simp [delivered]) (by simp [Printable])
  · exact accounted_of_silent sys (by simp [emitted]) (by simp [delivered]) (by simp [Printable])

/-- After any number of iterations, against any system, stdout shows exactly what the reads
delivered if and only if every read was printable. -/
theorem showsDelivered_iff (sys : System σ) (n : ℕ) (s : σ) :
    ShowsDelivered (relayLoop sys n s).log ↔
      ∀ e ∈ (relayLoop sys n s).log, Printable sys e := by
  obtain ⟨hz, hacc⟩ := accounted_relayLoop sys n s
  by_cases hd : 0 ∈ (relayLoop sys n s).log.flatMap delivered
  · -- a delivered NUL can never be shown
    have hne : ¬ ShowsDelivered (relayLoop sys n s).log := fun he => hz (he ▸ hd)
    refine iff_of_false hne fun hgood => ?_
    obtain ⟨⟨s', ev⟩, he, hm⟩ := List.mem_flatMap.mp hd
    cases ev <;> simp only [delivered, List.not_mem_nil] at hm
    exact (hgood _ he).1 hm
  · exact (hacc hd).eq_iff

/-- One read that delivers `h`, NUL, `i`, in an otherwise quiet run. -/
def nulRun : List Answers := [{ read := .stored [104, 0, 105] (Nat.succ_pos 2) (by decide) }]

theorem nul_cuts_output : ¬ ShowsDelivered (relayLoop replay 1 nulRun).log := by
  decide

end CloudSsh.RemoteToTerminal
