import CloudSsh.RelayLoop

/-!
# From the keyboard to the channel

The keyboard half of the loop offers a key to the channel once, in the iteration that
took it, and forgets it. The keys taken and the keys accepted are two accounts of one
log, and they agree exactly when no key is NUL and no offer is refused.
-/
namespace CloudSsh.TerminalToRemote
open EnvironmentPrograms RelayLoop

variable {σ : Type}

/-- The input byte that an entry takes from stdin. -/
def taken : Entry σ → List Byte
  | (_, .getchar (some c)) => [c]
  | _ => []

/-- The byte that the channel accepts in an entry. -/
def accepted : Entry σ → List Byte
  | (_, .write c ret) => if ret = 1 then [c] else []
  | _ => []

/-- The bytes that the loop keeps from one iteration to the next. The variables `c` and `st` end
with the iteration, and those that outlive it, `readfds` and `timeout`, hold no input. -/
def heldBytes : List Byte := []

/-- What the channel accepted is a prefix of what was taken, and the rest is still held, in
order. -/
def InOrder (log : List (Entry σ)) : Prop :=
  log.flatMap taken = log.flatMap accepted ++ heldBytes

instance (log : List (Entry σ)) : Decidable (InOrder log) := inferInstanceAs (Decidable (_ = _))

/-- A result that is an error, and not the would-block code. -/
def Fatal (ret : Int) : Prop := ret < 0 ∧ ret ≠ libssh2ErrorEagain

instance (ret : Int) : Decidable (Fatal ret) := inferInstanceAs (Decidable (_ ∧ _))

/-- The connection has failed in this entry with an error other than would-block. -/
def FailsIn : Entry σ → Prop
  | (_, .read _ ret _) => Fatal ret
  | (_, .write _ ret) => Fatal ret
  | _ => False

instance : DecidablePred (FailsIn : Entry σ → Prop)
  | (_, .read _ ret _) => inferInstanceAs (Decidable (Fatal ret))
  | (_, .write _ ret) => inferInstanceAs (Decidable (Fatal ret))
  | (_, .clearBlocking) | (_, .isEof _) | (_, .printString _ _) | (_, .fflush) | (_, .print _)
  | (_, .select _ _ _ _) | (_, .getchar _) | (_, .usleep _) | (_, .system _) =>
    inferInstanceAs (Decidable False)

/-- A key other than NUL, or an offer that is accepted. -/
def Forwarded : Entry σ → Prop
  | (_, .getchar key) => key ≠ some 0
  | (_, .write _ ret) => ret = 1
  | _ => True

abbrev KeyAccounts (log : List (Entry σ)) : Prop := Accounts taken accepted Forwarded log

/-- Entries that have no part in the keyboard input. -/
private theorem keyAccounts_of_silent {log : List (Entry σ)}
    (ht : ∀ e ∈ log, taken e = []) (ha : ∀ e ∈ log, accepted e = [])
    (hf : ∀ e ∈ log, Forwarded e) : KeyAccounts log := by
  have ht' : log.flatMap taken = [] := List.flatMap_eq_nil_iff.mpr ht
  have ha' : log.flatMap accepted = [] := List.flatMap_eq_nil_iff.mpr ha
  exact ⟨by simp [ha'], fun _ => by rw [ht', ha'], fun h => absurd hf h⟩

theorem keyAccounts_readRemote (sys : System σ) (s : σ) : KeyAccounts (readRemote sys s).log := by
  rcases readRemote_cases sys s with ⟨_, _, _, _, _, ho⟩ | ⟨_, _, _, _, ho⟩ <;> rw [ho]
  · exact keyAccounts_of_silent (by simp [taken]) (by simp [accepted]) (by simp [Forwarded])
  · split <;> exact keyAccounts_of_silent (by simp [taken]) (by simp [accepted])
      (by simp [Forwarded])

/-- A key is taken at most once and accepted at most once; a NUL and a refused offer are taken
and not accepted. -/
theorem keyAccounts_sendInput (sys : System σ) (s : σ) : KeyAccounts (sendInput sys s).log := by
  rcases sendInput_cases sys s with ⟨_, _, ho⟩ | ⟨ready, s₁, key, s₂, _, _, _, hk, ho⟩ |
    ⟨ready, s₁, c, s₂, st, s₃, _, _, _, hc, _, ho⟩ <;> rw [ho]
  · exact keyAccounts_of_silent (by simp [taken]) (by simp [accepted]) (by simp [Forwarded])
  · rcases hk with rfl | rfl
    · exact keyAccounts_of_silent (by simp [taken]) (by simp [accepted]) (by simp [Forwarded])
    · exact ⟨by simp [taken, accepted], by simp [Forwarded], by simp [taken, accepted]⟩
  · by_cases hs : st.1 = 1
    · exact ⟨by simp [taken, accepted, hs], by simp [taken, accepted, hs],
        by simp [Forwarded, hs, hc]⟩
    · refine ⟨?_, fun h => ?_, fun _ => ?_⟩
      · split <;> simp [taken, accepted, hs]
      · exact absurd (h (s₂, .write c st.1) (by simp)) hs
      · split <;> simp [taken, accepted, hs]

theorem keyAccounts_relayLoop (sys : System σ) (n : ℕ) (s : σ) :
    KeyAccounts (relayLoop sys n s).log := by
  refine relayLoop_log .nil (fun _ _ ha hb => ha.append hb) (fun s => ?_)
    (keyAccounts_readRemote sys) (keyAccounts_sendInput sys) (fun s => ?_) n s
  · exact keyAccounts_of_silent (by simp [taken]) (by simp [accepted]) (by simp [Forwarded])
  · exact keyAccounts_of_silent (by simp [taken]) (by simp [accepted]) (by simp [Forwarded])

/-- At one iteration boundary the keys are in order exactly when each was forwarded. -/
theorem inOrder_boundary_iff (sys : System σ) (n : ℕ) (s : σ) :
    InOrder (relayLoop sys n s).log ↔ ∀ e ∈ (relayLoop sys n s).log, Forwarded e := by
  simpa [InOrder, heldBytes] using (keyAccounts_relayLoop sys n s).eq_iff

/-- At all iteration boundaries before the connection fails, no input byte is lost, duplicated
or reordered if and only if, up to them, no key was NUL and no offer was refused. -/
theorem inOrder_iff (sys : System σ) (s : σ) :
    (∀ n, (∀ e ∈ (relayLoop sys n s).log, ¬ FailsIn e) → InOrder (relayLoop sys n s).log) ↔
      ∀ n, (∀ e ∈ (relayLoop sys n s).log, ¬ FailsIn e) →
        ∀ e ∈ (relayLoop sys n s).log, Forwarded e :=
  forall_congr' fun n => imp_congr_right fun _ => inOrder_boundary_iff sys n s

/-- The key `x` is offered while the channel would block; the channel works again afterwards. -/
def refusedRun : List Answers :=
  [{ select := 1, getchar := some 120,
     write := ⟨libssh2ErrorEagain, libssh2ErrorEagain_nonpos.trans zero_le_one⟩ },
   { select := 1, getchar := some 121 }]

theorem refused_key_is_lost :
    (∀ e ∈ (relayLoop replay 2 refusedRun).log, ¬ FailsIn e) ∧
      ¬ InOrder (relayLoop replay 2 refusedRun).log := by
  refine ⟨?_, by decide⟩
  decide

end CloudSsh.TerminalToRemote
