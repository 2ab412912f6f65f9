import CloudSsh.AgentLogin

/-!
# Identities are tried at once

Whatever stands in an identity that the agent hands out, the next thing that `ssh2_agent.c` does
is to try it.
-/
namespace CloudSsh.AgentTrials
open EnvironmentPrograms InterruptedPrograms FirstOccurrences AgentLogin
open RelayLoop (Byte)

variable {σ ι : Type} {l l' : List (Event ι)}

/-- Behind every identity that was found comes its trial. -/
def TriedAtOnce (l : List (Event ι)) : Prop :=
  ∀ before prev identity after, l = before ++ .agentGetIdentity prev (.found identity) :: after →
    ∃ rc rest, after = .agentUserauth identity rc :: rest

theorem tried_of_none (h : ∀ prev identity, .agentGetIdentity prev (.found identity) ∉ l) :
    TriedAtOnce l := by
  rintro before prev identity after rfl
  exact absurd (List.mem_append_right before List.mem_cons_self) (h prev identity)

theorem tried_nil : TriedAtOnce ([] : List (Event ι)) := tried_of_none fun _ _ => List.not_mem_nil

theorem tried_one {e : Event ι}
    (h : ∀ prev identity, e ≠ .agentGetIdentity prev (.found identity)) :
    TriedAtOnce [e] :=
  tried_of_none fun prev identity hmem => h prev identity (List.mem_singleton.mp hmem).symm

theorem TriedAtOnce.append (h : TriedAtOnce l) (h' : TriedAtOnce l') : TriedAtOnce (l ++ l') := by
  intro before prev identity after hl
  rcases List.append_eq_append_iff.mp hl with ⟨middle, rfl, hl'⟩ | ⟨middle, rfl, hl'⟩
  · exact h' middle prev identity after hl'
  · cases middle with
    | nil => exact h' [] prev identity after hl'.symm
    | cons e middle =>
      obtain ⟨rfl, rfl⟩ := List.cons.inj hl'
      obtain ⟨rc, rest, rfl⟩ := h before prev identity middle rfl
      exact ⟨rc, rest ++ l', List.cons_append⟩

theorem tried_pair (prev : Option ι) (identity : ι) (rc : Int) :
    TriedAtOnce [.agentGetIdentity prev (.found identity), .agentUserauth identity rc] := by
  rintro before prev' identity' after hl
  cases before with
  | nil =>
    cases hl
    exact ⟨rc, [], rfl⟩
  | cons e before =>
    obtain ⟨-, hl⟩ := List.cons.inj hl
    cases before with
    | nil => cases hl
    | cons e before => simp at hl

/-- What a routine logs. -/
def Tries (_ : σ) (l : List (Event ι)) (_ : σ) : Prop := TriedAtOnce l

theorem tries_path : Path (Tries : σ → List (Event ι) → σ → Prop) := ⟨fun _ => tried_nil, .append⟩

variable {sys : System σ ι} {n : ℕ} {username : List Byte}

theorem ask_tries {α : Type} {answer : σ → α × σ} {event : α → Event ι}
    (h : ∀ a prev identity, event a ≠ .agentGetIdentity prev (.found identity)) :
    Leads Tries (ask answer event : Login σ ι α) := fun _ => tried_one (h _)

theorem note_tries {e : Event ι}
    (h : ∀ prev identity, e ≠ .agentGetIdentity prev (.found identity)) :
    Leads Tries (note e : Login σ ι Unit) := ask_tries fun _ => h

theorem pure_tries {α : Type} (a : α) : Leads Tries (pure a : Login σ ι α) :=
  Leads.pure tries_path a

theorem bind_tries {α β : Type} {p : Login σ ι α} {f : α → Login σ ι β} (hp : Leads Tries p)
    (hf : ∀ a, Leads Tries (f a)) : Leads Tries (p >>= f) := Leads.bind tries_path hp hf

theorem say_tries (text : String) : Leads Tries (say text : Login σ ι Unit) := note_tries nofun

/-! ## The search -/

theorem tryNext_tries (agent : Addr) (prev : Option ι) :
    Leads Tries (tryNext sys username agent prev) := by
  intro s
  rw [tryNext, ask_bind]
  cases (sys.agentGetIdentity agent prev s).1 with
  | ended => exact tried_one nofun
  | failed code neg =>
    have hend : Leads Tries (do
        say "Failure obtaining identity from ssh-agent support\n"
        pure (.inr .failed) : Login σ ι (Option ι ⊕ Search)) :=
      bind_tries (say_tries _) fun _ => pure_tries _
    exact (tried_one nofun).append (hend _)
  | found identity =>
    dsimp only
    rw [ask_bind]
    have hend : ∀ rc : Int, Leads Tries (if rc ≠ 0 then do
          note (.stderr (outcome sys username identity " failed!\n"))
          pure (.inl (some identity))
        else do
          note (.stderr (outcome sys username identity " succeeded!\n"))
          pure (.inr .accepted) : Login σ ι (Option ι ⊕ Search)) := fun rc =>
      Leads.ite (bind_tries (note_tries nofun) fun _ => pure_tries _)
        (bind_tries (note_tries nofun) fun _ => pure_tries _)
    exact (tried_pair prev identity _).append (hend _ _)

theorem search_tries (agent : Addr) : Leads Tries (search sys n username agent) :=
  Leads.turns tries_path (tryNext_tries agent) n none

/-! ## The other parts -/

theorem shutdown_tries (agent session : Option Addr) (sock rc : Int) :
    Leads Tries (shutdown agent session sock rc : Login σ ι Int) := by
  apply bind_tries (note_tries nofun)
  intro _
  apply bind_tries (note_tries nofun)
  intro _
  apply bind_tries
  · cases session with
    | none => exact pure_tries _
    | some session => exact bind_tries (note_tries nofun) fun _ => note_tries nofun
  intro _
  apply bind_tries (Leads.ite (note_tries nofun) (pure_tries _))
  intro _
  apply bind_tries (say_tries _)
  intro _
  exact bind_tries (note_tries nofun) fun _ => pure_tries _

/-- A message, and the end. -/
theorem quit_tries (text : String) (agent session : Option Addr) (sock rc : Int) :
    Leads Tries (do say text; shutdown agent session sock rc : Login σ ι Int) :=
  bind_tries (say_tries text) fun _ => shutdown_tries agent session sock rc

theorem skipShell_tries (channel : Addr) (agent session : Option Addr) (sock rc : Int) :
    Leads Tries (skipShell channel agent session sock rc : Login σ ι Int) :=
  bind_tries (note_tries nofun) fun _ => shutdown_tries agent session sock rc

theorem requestShell_tries (agent session : Option Addr) (sock : Int) :
    Leads Tries (requestShell sys agent session sock) := by
  apply bind_tries (ask_tries nofun)
  intro channel
  cases channel with
  | none => exact quit_tries _ _ _ _ _
  | some channel =>
    apply bind_tries (ask_tries nofun)
    intro _
    apply bind_tries (ask_tries nofun)
    intro failed
    apply Leads.ite (bind_tries (say_tries _) fun _ => skipShell_tries _ _ _ _ _)
    apply bind_tries (ask_tries nofun)
    exact fun failed => Leads.ite (quit_tries _ _ _ _ _) (skipShell_tries _ _ _ _ _)

theorem useAgent_tries (session : Option Addr) (sock : Int) :
    Leads Tries (useAgent sys n username session sock) := by
  apply bind_tries (ask_tries nofun)
  intro agent
  cases agent with
  | none => exact quit_tries _ _ _ _ _
  | some agent =>
    apply bind_tries (ask_tries nofun)
    intro failed
    apply Leads.ite (quit_tries _ _ _ _ _)
    apply bind_tries (ask_tries nofun)
    intro failed
    apply Leads.ite (quit_tries _ _ _ _ _)
    apply bind_tries (search_tries agent)
    intro r
    cases r with
    | accepted => exact requestShell_tries _ _ _
    | exhausted => exact quit_tries _ _ _ _ _
    | failed => exact shutdown_tries _ _ _ _

theorem showBytes_tries (mem : List Byte) : Leads Tries (showBytes mem : Login σ ι Unit) := by
  induction mem with
  | nil => exact pure_tries _
  | cons c rest ih => exact bind_tries (note_tries nofun) fun _ => ih

theorem chooseMethod_tries (session : Option Addr) (sock : Int) :
    Leads Tries (chooseMethod sys n username session sock) := by
  apply bind_tries (ask_tries nofun)
  intro userauthlist
  cases userauthlist with
  | none => exact fun s => tried_nil
  | some userauthlist =>
    apply bind_tries (note_tries nofun)
    exact fun _ => Leads.ite (quit_tries _ _ _ _ _) (useAgent_tries session sock)

theorem startSession_tries (sock : Int) : Leads Tries (startSession sys n username sock) := by
  apply bind_tries (ask_tries nofun)
  intro session
  apply bind_tries (ask_tries nofun)
  intro failed
  apply Leads.ite (bind_tries (say_tries _) fun _ => pure_tries _)
  apply bind_tries (ask_tries nofun)
  intro fingerprint
  apply bind_tries (say_tries _)
  intro _
  cases fingerprint with
  | none => exact fun s => tried_nil
  | some fingerprint =>
    apply bind_tries (showBytes_tries _)
    intro _
    apply bind_tries (say_tries _)
    exact fun _ => chooseMethod_tries session sock

theorem main_tries (hostaddr : ℕ) : Leads Tries (AgentLogin.main sys n username hostaddr) := by
  apply bind_tries (ask_tries nofun)
  intro rc
  apply Leads.ite (bind_tries (say_tries _) fun _ => pure_tries _)
  apply bind_tries (ask_tries nofun)
  intro sock
  apply Leads.ite (quit_tries _ _ _ _ _)
  apply bind_tries (ask_tries nofun)
  intro failed
  exact Leads.ite (quit_tries _ _ _ _ _) (startSession_tries sock)

end CloudSsh.AgentTrials
