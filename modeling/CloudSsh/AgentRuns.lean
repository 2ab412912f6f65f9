import CloudSsh.AgentTrials
import CloudSsh.ReturningPrograms

/-!
# Runs of the login with the agent

What a run of `ssh2_agent.c` has done is summed up from its log: which identities were tried
with which result, what was opened and what was given back. The exit code is told from that.
-/
namespace CloudSsh.AgentRuns
open EnvironmentPrograms InterruptedPrograms FirstOccurrences AgentLogin AgentTrials
open ReturningPrograms (Stops)
open RelayLoop (Byte)

/-! ## What a log has done -/

structure Summary (ι : Type) where
  sock : Option Int
  connected : Option Int
  session : Option Addr
  methods : Option (List Byte)
  /-- What `libssh2_agent_init` returned. -/
  agent : Option (Option Addr)
  listed : Option Int
  /-- The identities that were tried, with what the server answered. -/
  attempts : List (ι × Int)
  channel : Option Addr
  shell : Option Int
  channelFreed : Option Addr
  /-- What `libssh2_agent_disconnect` was given. -/
  disconnected : Option (Option Addr)
  sessionFreed : Option Addr
  closed : Option Int

variable {σ ι : Type}

def nothing : Summary ι :=
  ⟨none, none, none, none, none, none, [], none, none, none, none, none, none⟩

def Summary.add (S : Summary ι) : Event ι → Summary ι
  | .socket sock => { S with sock := some sock }
  | .connect _ _ rc => { S with connected := some rc }
  | .sessionInit session => { S with session := session }
  | .userauthList userauthlist => { S with methods := userauthlist }
  | .agentInit agent => { S with agent := some agent }
  | .agentListIdentities rc => { S with listed := some rc }
  | .agentUserauth identity rc => { S with attempts := S.attempts ++ [(identity, rc)] }
  | .channelOpenSession channel => { S with channel := channel }
  | .channelShell rc => { S with shell := some rc }
  | .channelFree channel => { S with channelFreed := some channel }
  | .agentDisconnect agent => { S with disconnected := some agent }
  | .sessionFree session => { S with sessionFreed := some session }
  | .close sock => { S with closed := some sock }
  | _ => S

def summaryOf (l : List (Event ι)) : Summary ι := l.foldl Summary.add nothing

@[simp] theorem summaryOf_concat (l : List (Event ι)) (e : Event ι) :
    summaryOf (l ++ [e]) = (summaryOf l).add e := by simp [summaryOf]

/-- The next identity is asked for with the last one that was tried, when all so far were refused.
What is tried is the identity that was just handed out. A shell is requested only behind an identity
that was accepted, and only what was opened is given back. -/
def Careful (before : List (Event ι)) : Event ι → Prop
  | .agentGetIdentity prev _ =>
    prev = (summaryOf before).attempts.getLast?.map Prod.fst ∧
      ∀ t ∈ (summaryOf before).attempts, t.2 ≠ 0
  | .agentUserauth identity _ => ∃ l prev, before = l ++ [.agentGetIdentity prev (.found identity)]
  | .channelOpenSession _ => ∃ identity, (summaryOf before).attempts.getLast? = some (identity, 0)
  | .channelFree channel => (summaryOf before).channel = some channel
  | .agentDisconnect agent => agent = (summaryOf before).agent.join
  | .agentFree agent => agent = (summaryOf before).agent.join
  | .sessionDisconnect session => (summaryOf before).session = some session
  | .sessionFree session => (summaryOf before).session = some session
  | .close sock => (summaryOf before).sock = some sock ∧ sock ≠ -1
  | _ => True

/-- The identities tried: all were refused, but for the last one if the search found it. -/
def Tried : Search → List (ι × Int) → Prop
  | .accepted, t => ∃ front identity, t = front ++ [(identity, 0)] ∧ ∀ u ∈ front, u.2 ≠ 0
  | _, t => ∀ u ∈ t, u.2 ≠ 0

def Accepted (S : Summary ι) : Prop := ∃ identity, (identity, 0) ∈ S.attempts

def NotConnected (S : Summary ι) : Prop := ∃ rc, S.connected = some rc ∧ rc ≠ 0

def Unsupported (S : Summary ι) : Prop :=
  ∃ methods, S.methods = some methods ∧ find publickey methods = none

/-- What a run that ends has done. `T` tells how it searched. -/
structure Ends (T : Search → List ι → Prop) (rc : Int) (S : Summary ι) : Prop where
  status : rc = 0 ∨ rc = 1
  success : rc = 0 ↔ Accepted S ∨ NotConnected S ∨ Unsupported S
  /-- There may be no agent to disconnect. -/
  null : S.disconnected = some none ↔
    S.sock = some (-1) ∨ NotConnected S ∨ Unsupported S ∨ S.agent = some none
  searched : S.listed = some 0 → ∃ r, Tried r S.attempts ∧ T r (S.attempts.map Prod.fst)
  /-- Behind the label `shutdown`. -/
  shutdown : S.disconnected ≠ none → S.closed = S.sock.filter (· ≠ -1) ∧ S.sessionFreed = S.session
  early : S.disconnected = none → S.closed = none ∧ S.sessionFreed = none
  channel : S.channelFreed = none ↔ S.channel = none ∨ ∃ code, S.shell = some code ∧ code ≠ 0

variable {sys : System σ ι} {S : Summary ι} {n : ℕ} {username : List Byte}
variable {T : Search → List ι → Prop} {E : Exit → List (Event ι) → Prop}

def At (S : Summary ι) (l : List (Event ι)) : Prop := summaryOf l = S

theorem ask_at {α : Type} {answer : σ → α × σ} {event : α → Event ι}
    (h : ∀ a l, At S l → Careful l (event a)) :
    Meets Careful (At S) (ask answer event) (fun a => At (S.add (event a))) E := by
  apply Meets.ask h
  intro a l hl
  rw [At, summaryOf_concat, hl]

theorem note_at {e : Event ι} (h : ∀ l, At S l → Careful l e) :
    Meets Careful (At S) (note e : Login σ ι Unit) (fun _ => At (S.add e)) E := ask_at fun _ => h

theorem say_at (text : String) :
    Meets Careful (At S) (say text : Login σ ι Unit) (fun _ => At S) E := note_at fun _ _ => trivial

/-! ## The end -/

/-- Nothing was given back yet. -/
structure Summary.Holding (S : Summary ι) (agent session : Option Addr) (sock : Int) : Prop where
  agent : S.agent.join = agent
  session : S.session = session
  sock : S.sock = some sock
  disconnected : S.disconnected = none
  sessionFreed : S.sessionFreed = none
  closed : S.closed = none

def Summary.shutDown (S : Summary ι) (agent session : Option Addr) (sock : Int) : Summary ι :=
  { S with
    disconnected := some agent
    sessionFreed := session
    closed := (some sock).filter (· ≠ -1) }

theorem endSession_at {session : Option Addr} (h : S.session = session)
    (hfreed : S.sessionFreed = none) :
    Meets Careful (At S) (endSession session : Login σ ι Unit)
      (fun _ => At { S with sessionFreed := session }) E := by
  cases session with
  | none =>
    apply Meets.pure
    intro l hl
    rw [At, hl, ← hfreed]
  | some session =>
    apply Meets.bind
    · apply note_at
      intro l hl
      rw [Careful, hl, h]
    intro _
    apply note_at
    intro l hl
    rw [Careful, hl]
    exact h

theorem endSocket_at {sock : Int} (h : S.sock = some sock) (hclosed : S.closed = none) :
    Meets Careful (At S) (endSocket sock : Login σ ι Unit)
      (fun _ => At { S with closed := (some sock).filter (· ≠ -1) }) E := by
  apply Meets.ite
  · intro hne
    have hfilter : (some sock).filter (· ≠ -1) = some sock := by simp [hne]
    rw [hfilter]
    apply note_at
    intro l hl
    rw [Careful, hl]
    exact ⟨h, hne⟩
  · intro heq
    have hfilter : (some sock).filter (· ≠ -1) = none := by simpa using heq
    rw [hfilter]
    apply Meets.pure
    intro l hl
    rw [At, hl, ← hclosed]

theorem shutdown_at {agent session : Option Addr} {sock rc : Int} (h : S.Holding agent session sock)
    (hends : Ends T rc (S.shutDown agent session sock)) :
    Meets Careful (At S) (shutdown agent session sock rc : Login σ ι Int)
      (fun rc l => Ends T rc (summaryOf l)) E := by
  apply Meets.bind
  · apply note_at
    intro l hl
    rw [Careful, hl, h.agent]
  intro _
  apply Meets.bind
  · apply note_at
    intro l hl
    rw [Careful, hl]
    exact h.agent.symm
  intro _
  apply Meets.bind
  · exact endSession_at h.session h.sessionFreed
  intro _
  apply Meets.bind
  · exact endSocket_at h.sock h.closed
  intro _
  apply Meets.bind (say_at _)
  intro _
  apply Meets.bind
  · exact note_at fun _ _ => trivial
  intro _
  apply Meets.pure
  intro l hl
  rw [hl]
  exact hends

theorem free_way (hconnected : S.connected = some 0)
    (hoffered : ∃ methods, S.methods = some methods ∧ find publickey methods ≠ none) :
    ¬ (NotConnected S ∨ Unsupported S) := by
  rintro (⟨code, hcode, hne⟩ | ⟨methods, hmethods, hnone⟩)
  · rw [hconnected] at hcode
    exact hne (Option.some.inj hcode).symm
  · obtain ⟨methods', hmethods', hfound⟩ := hoffered
    rw [hmethods] at hmethods'
    cases hmethods'
    exact hfound hnone

/-- The way to an agent was free. -/
structure Summary.Ready (S : Summary ι) (agent : Addr) (session : Option Addr)
    (sock : Int) : Prop where
  holding : S.Holding (some agent) session sock
  socket : sock ≠ -1
  connected : S.connected = some 0
  offered : ∃ methods, S.methods = some methods ∧ find publickey methods ≠ none
  there : S.agent = some (some agent)

variable {agent : Addr} {session : Option Addr} {sock rc : Int}

theorem Summary.Ready.ends (h : S.Ready agent session sock) (hstatus : rc = 0 ∨ rc = 1)
    (hsuccess : rc = 0 ↔ Accepted S)
    (hsearched : S.listed = some 0 → ∃ r, Tried r S.attempts ∧ T r (S.attempts.map Prod.fst))
    (hchannel : S.channelFreed = none ↔ S.channel = none ∨ ∃ code, S.shell = some code ∧ code ≠ 0) :
    Ends T rc (S.shutDown (some agent) session sock) := by
  have hfree := free_way h.connected h.offered
  constructor
  · exact hstatus
  · constructor
    · exact fun hrc => .inl (hsuccess.mp hrc)
    · rintro (haccepted | hnot)
      · exact hsuccess.mpr haccepted
      · exact absurd hnot hfree
  · apply iff_of_false
    · intro hnone
      cases hnone
    · rintro (hsock | hnot | hnot | hagent)
      · exact h.socket (Option.some.inj (h.holding.sock.symm.trans hsock))
      · exact hfree (.inl hnot)
      · exact hfree (.inr hnot)
      · cases h.there.symm.trans hagent
  · exact hsearched
  · intro _
    have hclosed : (some sock).filter (· ≠ -1) = S.sock.filter (· ≠ -1) := by rw [h.holding.sock]
    exact ⟨hclosed, h.holding.session.symm⟩
  · intro hnone
    cases hnone
  · exact hchannel

/-! ## The shell -/

theorem skipShell_at {channel : Addr} (h : S.Holding (some agent) session sock)
    (hchannel : S.channel = some channel)
    (hends : Ends T rc ({ S with channelFreed := some channel }.shutDown
      (some agent) session sock)) :
    Meets Careful (At S) (skipShell channel (some agent) session sock rc : Login σ ι Int)
      (fun rc l => Ends T rc (summaryOf l)) E := by
  apply Meets.bind
  · apply note_at
    intro l hl
    rw [Careful, hl, hchannel]
  intro _
  exact shutdown_at ⟨h.agent, h.session, h.sock, h.disconnected, h.sessionFreed, h.closed⟩ hends

theorem accepted_of_tried {t : List (ι × Int)} (h : Tried .accepted t) :
    (∃ identity, t.getLast? = some (identity, 0)) ∧ ∃ identity, (identity, 0) ∈ t := by
  obtain ⟨front, identity, rfl, -⟩ := h
  exact ⟨⟨identity, List.getLast?_concat⟩, identity, by simp⟩

/-- Whatever came of the shell is no matter for what stands at the labels. -/
theorem Summary.Holding.shells (h : S.Holding (some agent) session sock) (channel : Option Addr)
    (shell : Option Int) (channelFreed : Option Addr) :
    Summary.Holding { S with channel := channel, shell := shell, channelFreed := channelFreed }
      (some agent) session sock :=
  ⟨h.agent, h.session, h.sock, h.disconnected, h.sessionFreed, h.closed⟩

theorem requestShell_at (h : S.Ready agent session sock) (htried : Tried .accepted S.attempts)
    (hT : T .accepted (S.attempts.map Prod.fst)) (hshell : S.shell = none)
    (hfreed : S.channelFreed = none) :
    Meets Careful (At S) (requestShell sys (some agent) session sock)
      (fun rc l => Ends T rc (summaryOf l)) E := by
  obtain ⟨hlast, haccepted⟩ := accepted_of_tried htried
  have hends : ∀ channel shell channelFreed,
      (channelFreed = none ↔ channel = none ∨ ∃ code, shell = some code ∧ code ≠ 0) →
      Ends T 0 (Summary.shutDown
        { S with channel := channel, shell := shell, channelFreed := channelFreed }
        (some agent) session sock) := by
    intro channel shell channelFreed hfreed
    apply Summary.Ready.ends
    · exact ⟨h.holding.shells _ _ _, h.socket, h.connected, h.offered, h.there⟩
    · exact .inl rfl
    · exact iff_of_true rfl haccepted
    · exact fun _ => ⟨_, htried, hT⟩
    · exact hfreed
  apply Meets.bind
  · apply ask_at
    intro _ l hl
    rw [Careful, hl]
    exact hlast
  intro channel
  cases channel with
  | none =>
    apply Meets.bind
    · exact say_at _
    intro _
    apply shutdown_at
    · exact h.holding.shells none S.shell S.channelFreed
    · exact hends none S.shell S.channelFreed (iff_of_true hfreed (.inl rfl))
  | some channel =>
    apply Meets.bind
    · exact ask_at fun _ _ _ => trivial
    intro _
    apply Meets.bind
    · exact ask_at fun _ _ _ => trivial
    intro failed
    apply Meets.ite
    · intro _
      apply Meets.bind
      · exact say_at _
      intro _
      apply skipShell_at
      · exact h.holding.shells (some channel) S.shell S.channelFreed
      · rfl
      · apply hends (some channel) S.shell (some channel)
        simp [hshell]
    · intro _
      apply Meets.bind
      · exact ask_at fun _ _ _ => trivial
      intro failed
      apply Meets.ite
      · intro hne
        apply Meets.bind
        · exact say_at _
        intro _
        apply shutdown_at
        · exact h.holding.shells (some channel) (some failed) S.channelFreed
        · apply hends (some channel) (some failed) S.channelFreed
          exact iff_of_true hfreed (.inr ⟨failed, rfl, hne⟩)
      · intro hzero
        apply skipShell_at
        · exact h.holding.shells (some channel) (some failed) S.channelFreed
        · rfl
        · apply hends (some channel) (some failed) (some channel)
          simpa using hzero

/-! ## The search -/

/-- The search tells what it has tried. -/
def Searches (sys : System σ ι) (T : Search → List ι → Prop) : Prop :=
  ∀ (S : Summary ι) (n : ℕ) (username : List Byte) (agent : Addr)
    (E : Exit → List (Event ι) → Prop),
    S.attempts = [] → Meets Careful (At S) (search sys n username agent)
      (fun r l => ∃ t, (Tried r t ∧ T r (t.map Prod.fst)) ∧ At { S with attempts := t } l) E

/-- `K` is kept by the identities that are tried, and `Last` follows where there are no more. -/
theorem search_at {K : List ι → Prop} {Last : Search → List ι → Prop} (hnil : K [])
    (hgot : ∀ agent front s, K front → match (sys.agentGetIdentity agent front.getLast? s).1 with
      | .found identity => K (front ++ [identity]) ∧ Last .accepted (front ++ [identity])
      | .ended => Last .exhausted front
      | .failed _ _ => Last .failed front) :
    Searches sys Last := by
  intro S n username agent E hattempts
  apply Meets.turns (L := fun prev l => ∃ t : List (ι × Int), (prev = (t.map Prod.fst).getLast? ∧
    K (t.map Prod.fst) ∧ ∀ u ∈ t, u.2 ≠ 0) ∧ At { S with attempts := t } l)
  · intro l hl
    exact ⟨[], ⟨rfl, hnil, by simp⟩, by rw [At, hl, ← hattempts]⟩
  intro prev
  apply Meets.given
  rintro t ⟨rfl, hK, hrefused⟩
  apply Meets.bind (Q := fun got l => (match got with
      | .found identity =>
        K (t.map Prod.fst ++ [identity]) ∧ Last .accepted (t.map Prod.fst ++ [identity])
      | .ended => Last .exhausted (t.map Prod.fst)
      | .failed _ _ => Last .failed (t.map Prod.fst)) ∧
    At { S with attempts := t } l ∧
      ∃ before, l = before ++ [.agentGetIdentity (t.map Prod.fst).getLast? got])
  · apply Meets.asked
    intro s l hl
    refine ⟨?_, hgot agent _ s hK, ?_, l, rfl⟩
    · rw [Careful, hl]
      exact ⟨List.getLast?_map, hrefused⟩
    · rw [At, summaryOf_concat, hl]
      rfl
  intro got
  apply Meets.assuming
  intro hlast
  cases got with
  | ended =>
    apply Meets.pure
    rintro l ⟨hl, -⟩
    exact ⟨t, ⟨hrefused, hlast⟩, hl⟩
  | failed code neg =>
    apply Meets.bind (Q := fun _ => At { S with attempts := t })
    · apply (say_at _).pre
      exact fun l hl => hl.1
    intro _
    apply Meets.pure
    intro l hl
    exact ⟨t, ⟨hrefused, hlast⟩, hl⟩
  | found identity =>
    apply Meets.bind (Q := fun rc => At { S with attempts := t ++ [(identity, rc)] })
    · apply Meets.ask
      · rintro rc l ⟨-, before, hbefore⟩
        exact ⟨before, _, hbefore⟩
      · rintro rc l ⟨hl, -⟩
        rw [At, summaryOf_concat, hl]
        rfl
    intro rc
    apply Meets.ite
    · intro hne
      apply Meets.bind
      · exact note_at fun _ _ => trivial
      intro _
      apply Meets.pure
      intro l hl
      refine ⟨t ++ [(identity, rc)], ⟨?_, ?_, ?_⟩, hl⟩
      · simp
      · simpa using hlast.1
      · intro u hu
        rcases List.mem_append.mp hu with hu | hu
        · exact hrefused u hu
        · rw [List.mem_singleton.mp hu]
          exact hne
    · intro hzero
      apply Meets.bind
      · exact note_at fun _ _ => trivial
      intro _
      apply Meets.pure
      intro l hl
      refine ⟨t ++ [(identity, rc)], ⟨⟨t, identity, ?_, hrefused⟩, ?_⟩, hl⟩
      · rw [not_not.mp hzero]
      · simpa using hlast.2

/-! ## The program -/

/-- What was done on the way to a shell. -/
def reached (sock : Int) (session : Option Addr) (methods : List Byte)
    (agent : Option (Option Addr)) (listed : Option Int) (attempts : List (ι × Int)) : Summary ι :=
  ⟨some sock, some 0, session, some methods, agent, listed, attempts, none, none, none, none,
    none, none⟩

theorem reached_ready {methods : List Byte} {listed : Option Int} {t : List (ι × Int)}
    (hsock : sock ≠ -1) (hoffered : find publickey methods ≠ none) :
    (reached sock session methods (some (some agent)) listed t).Ready agent session sock where
  holding := ⟨rfl, rfl, rfl, rfl, rfl, rfl⟩
  socket := hsock
  connected := rfl
  offered := ⟨methods, rfl, hoffered⟩
  there := rfl

/-- There is no agent to disconnect. -/
theorem ends_without (h : S.Holding none session sock) (hattempts : S.attempts = [])
    (hlisted : S.listed = none)
    (hchannel : S.channel = none) (hfreed : S.channelFreed = none) (hstatus : rc = 0 ∨ rc = 1)
    (hsuccess : rc = 0 ↔ NotConnected S ∨ Unsupported S)
    (hnull : S.sock = some (-1) ∨ NotConnected S ∨ Unsupported S ∨ S.agent = some none) :
    Ends T rc (S.shutDown none session sock) := by
  constructor
  · exact hstatus
  · have hnone : ¬ Accepted S := by
      rintro ⟨identity, hmem⟩
      rw [hattempts] at hmem
      cases hmem
    exact hsuccess.trans (or_iff_right hnone).symm
  · exact iff_of_true rfl hnull
  · intro hsome
    cases hlisted.symm.trans hsome
  · intro _
    have hclosed : (some sock).filter (· ≠ -1) = S.sock.filter (· ≠ -1) := by rw [h.sock]
    exact ⟨hclosed, h.session.symm⟩
  · intro hnone
    cases hnone
  · exact iff_of_true hfreed (.inl hchannel)

theorem not_accepted {t : List (ι × Int)} (h : ∀ u ∈ t, u.2 ≠ 0) (hS : S.attempts = t) :
    ¬ Accepted S := by
  rintro ⟨identity, hmem⟩
  rw [hS] at hmem
  exact h _ hmem rfl

theorem behindSearch_at {methods : List Byte} {t : List (ι × Int)} (hsock : sock ≠ -1)
    (hoffered : find publickey methods ≠ none) {r : Search} (htried : Tried r t)
    (hT : T r (t.map Prod.fst)) :
    Meets Careful (At (reached sock session methods (some (some agent)) (some 0) t))
      (behindSearch sys agent session sock r) (fun rc l => Ends T rc (summaryOf l)) E := by
  have hready : (reached sock session methods (some (some agent)) (some 0) t).Ready
    agent session sock :=
    reached_ready hsock hoffered
  have hends : (∀ u ∈ t, u.2 ≠ 0) →
      Ends T 1 ((reached sock session methods (some (some agent)) (some 0) t).shutDown
        (some agent) session sock) := by
    intro hrefused
    apply hready.ends
    · exact .inr rfl
    · exact iff_of_false (by decide) (not_accepted hrefused rfl)
    · exact fun _ => ⟨r, htried, hT⟩
    · exact iff_of_true rfl (.inl rfl)
  cases r with
  | accepted => exact requestShell_at hready htried hT rfl rfl
  | exhausted =>
    apply Meets.bind
    · exact say_at _
    intro _
    exact shutdown_at hready.holding (hends htried)
  | failed => exact shutdown_at hready.holding (hends htried)

theorem useAgent_at (hsearch : Searches sys T) {methods : List Byte} (hsock : sock ≠ -1)
    (hoffered : find publickey methods ≠ none) :
    Meets Careful (At (reached sock session methods none none []))
      (useAgent sys n username session sock)
      (fun rc l => Ends T rc (summaryOf l)) E := by
  apply Meets.bind
  · exact ask_at fun _ _ _ => trivial
  intro agent
  cases agent with
  | none =>
    apply Meets.bind
    · exact say_at _
    intro _
    apply shutdown_at
    · exact ⟨rfl, rfl, rfl, rfl, rfl, rfl⟩
    · apply ends_without
      · exact ⟨rfl, rfl, rfl, rfl, rfl, rfl⟩
      · rfl
      · rfl
      · rfl
      · rfl
      · exact .inr rfl
      · exact iff_of_false (by decide) (free_way rfl ⟨methods, rfl, hoffered⟩)
      · exact .inr (.inr (.inr rfl))
  | some agent =>
    have hends : ∀ listed, listed ≠ some 0 → Ends T 1
        ((reached sock session methods (some (some agent)) listed []).shutDown
          (some agent) session sock) := by
      intro listed hlisted
      apply (reached_ready hsock hoffered).ends
      · exact .inr rfl
      · exact iff_of_false (by decide) (not_accepted (t := []) (by simp) rfl)
      · exact fun hzero => absurd hzero hlisted
      · exact iff_of_true rfl (.inl rfl)
    apply Meets.bind
    · exact ask_at fun _ _ _ => trivial
    intro failed
    apply Meets.ite
    · intro _
      apply Meets.bind
      · exact say_at _
      intro _
      apply shutdown_at
      · exact ⟨rfl, rfl, rfl, rfl, rfl, rfl⟩
      · exact hends none (by simp)
    · intro _
      apply Meets.bind
      · exact ask_at fun _ _ _ => trivial
      intro failed
      apply Meets.ite
      · intro hne
        apply Meets.bind
        · exact say_at _
        intro _
        apply shutdown_at
        · exact ⟨rfl, rfl, rfl, rfl, rfl, rfl⟩
        · exact hends (some failed) (by simpa using hne)
      · intro hzero
        rw [not_not.mp hzero]
        apply Meets.bind
        · exact hsearch _ n username agent E rfl
        intro r
        apply Meets.given
        rintro t ⟨htried, hT⟩
        exact behindSearch_at hsock hoffered htried hT

theorem showBytes_at (mem : List Byte) :
    Meets Careful (At S) (showBytes mem : Login σ ι Unit) (fun _ => At S) E := by
  induction mem with
  | nil => exact Meets.pure fun l hl => hl
  | cons c rest ih =>
    apply Meets.bind
    · exact note_at fun _ _ => trivial
    exact fun _ => ih

/-- What was done on the way to a session. -/
def opened (sock connected : Option Int) (session : Option Addr) : Summary ι :=
  ⟨sock, connected, session, none, none, none, [], none, none, none, none, none, none⟩

theorem opened_ends {sock : Int} {connected : Option Int} (hstatus : rc = 0 ∨ rc = 1)
    (hsuccess : rc = 0 ↔ ∃ code, connected = some code ∧ code ≠ 0)
    (hnull : sock = -1 ∨ ∃ code, connected = some code ∧ code ≠ 0) :
    Ends T rc ((opened (some sock) connected none : Summary ι).shutDown none none sock) := by
  apply ends_without
  · exact ⟨rfl, rfl, rfl, rfl, rfl, rfl⟩
  · rfl
  · rfl
  · rfl
  · rfl
  · exact hstatus
  · constructor
    · exact fun hrc => .inl (hsuccess.mp hrc)
    · rintro (hnot | ⟨methods, hmethods, -⟩)
      · exact hsuccess.mpr hnot
      · cases hmethods
  · rcases hnull with hsock | hnot
    · exact .inl (congrArg some hsock)
    · exact .inr (.inl hnot)

theorem chooseMethod_at (hsearch : Searches sys T) (hsock : sock ≠ -1) :
    Meets Careful (At (opened (some sock) (some 0) session))
      (chooseMethod sys n username session sock)
      (fun rc l => Ends T rc (summaryOf l)) fun _ _ => True := by
  apply Meets.bind
  · exact ask_at fun _ _ _ => trivial
  intro userauthlist
  cases userauthlist with
  | none => exact Meets.leave fun _ _ => trivial
  | some methods =>
    apply Meets.bind
    · exact note_at fun _ _ => trivial
    intro _
    apply Meets.ite
    · intro hnone
      apply Meets.bind
      · exact say_at _
      intro _
      apply shutdown_at
      · exact ⟨rfl, rfl, rfl, rfl, rfl, rfl⟩
      · apply ends_without
        · exact ⟨rfl, rfl, rfl, rfl, rfl, rfl⟩
        · rfl
        · rfl
        · rfl
        · rfl
        · exact .inl rfl
        · exact iff_of_true rfl (.inr ⟨methods, rfl, hnone⟩)
        · exact .inr (.inr (.inl ⟨methods, rfl, hnone⟩))
    · exact fun hoffered => useAgent_at hsearch hsock hoffered

/-- The program gives up before anything is given back. -/
theorem opened_early {sock connected : Option Int} (hsock : sock ≠ some (-1))
    (hconnected : ¬ ∃ code, connected = some code ∧ code ≠ 0) :
    Ends T 1 (opened sock connected session : Summary ι) where
  status := .inr rfl
  success := by
    apply iff_of_false (by decide)
    rintro (hnot | hnot | ⟨methods, hmethods, -⟩)
    · exact not_accepted (t := []) (by simp) rfl hnot
    · exact hconnected hnot
    · cases hmethods
  null := by
    apply iff_of_false nofun
    rintro (hnot | hnot | ⟨methods, hmethods, -⟩ | hnot)
    · exact hsock hnot
    · exact hconnected hnot
    · cases hmethods
    · cases hnot
  searched := nofun
  shutdown hne := absurd rfl hne
  early _ := ⟨rfl, rfl⟩
  channel := iff_of_true rfl (.inl rfl)

theorem startSession_at (hsearch : Searches sys T) (hsock : sock ≠ -1) :
    Meets Careful (At (opened (some sock) (some 0) none)) (startSession sys n username sock)
      (fun rc l => Ends T rc (summaryOf l)) fun _ _ => True := by
  apply Meets.bind
  · exact ask_at fun _ _ _ => trivial
  intro session
  apply Meets.bind
  · exact ask_at fun _ _ _ => trivial
  intro failed
  apply Meets.ite
  · intro _
    apply Meets.bind
    · exact say_at _
    intro _
    apply Meets.pure
    intro l hl
    rw [hl]
    apply opened_early
    · exact fun h => hsock (Option.some.inj h)
    · rintro ⟨code, hcode, hne⟩
      exact hne (Option.some.inj hcode).symm
  · intro _
    apply Meets.bind
    · exact ask_at fun _ _ _ => trivial
    intro fingerprint
    apply Meets.bind
    · exact say_at _
    intro _
    cases fingerprint with
    | none => exact Meets.leave fun _ _ => trivial
    | some fingerprint =>
      apply Meets.bind
      · exact showBytes_at _
      intro _
      apply Meets.bind
      · exact say_at _
      exact fun _ => chooseMethod_at hsearch hsock

theorem main_at (hsearch : Searches sys T) (hostaddr : ℕ) :
    Meets Careful (At nothing) (AgentLogin.main sys n username hostaddr)
      (fun rc l => Ends T rc (summaryOf l)) fun _ _ => True := by
  apply Meets.bind
  · exact ask_at fun _ _ _ => trivial
  intro rc
  apply Meets.ite
  · intro _
    apply Meets.bind
    · exact say_at _
    intro _
    apply Meets.pure
    intro l hl
    rw [hl]
    exact opened_early nofun nofun
  · intro _
    apply Meets.bind
    · exact ask_at fun _ _ _ => trivial
    intro sock
    apply Meets.ite
    · rintro rfl
      apply Meets.bind
      · exact say_at _
      intro _
      apply shutdown_at
      · exact ⟨rfl, rfl, rfl, rfl, rfl, rfl⟩
      · apply opened_ends
        · exact .inr rfl
        · exact iff_of_false (by decide) nofun
        · exact .inl rfl
    · intro hsock
      apply Meets.bind
      · exact ask_at fun _ _ _ => trivial
      intro failed
      apply Meets.ite
      · intro hne
        apply Meets.bind
        · exact say_at _
        intro _
        apply shutdown_at
        · exact ⟨rfl, rfl, rfl, rfl, rfl, rfl⟩
        · apply opened_ends
          · exact .inl rfl
          · exact iff_of_true rfl ⟨failed, rfl, hne⟩
          · exact .inr ⟨failed, rfl, hne⟩
      · intro hzero
        rw [not_not.mp hzero]
        exact startSession_at hsearch hsock

/-- The agent hands out the identities of a list one after the other. -/
structure Lists (sys : System σ ι) (ids : List ι) : Prop where
  next : ∀ agent front identity rest s, ids = front ++ identity :: rest →
    (sys.agentGetIdentity agent front.getLast? s).1 = .found identity
  last : ∀ agent s, (sys.agentGetIdentity agent ids.getLast? s).1 = .ended

variable {ids : List ι}

/-- How the search is left. -/
def InOrder (ids : List ι) : Search → List ι → Prop
  | .accepted, tried => tried <+: ids
  | .exhausted, tried => tried = ids
  | .failed, _ => False

theorem Lists.searches (h : Lists sys ids) : Searches sys (InOrder ids) := by
  apply search_at (K := fun front => front <+: ids) List.nil_prefix
  rintro agent front s ⟨rest, hids⟩
  cases rest with
  | nil =>
    rw [List.append_nil] at hids
    subst hids
    rw [h.last agent s]
    rfl
  | cons identity rest =>
    rw [h.next agent front identity rest s hids.symm]
    have hfront : front ++ [identity] <+: ids := ⟨rest, by simpa using hids⟩
    exact ⟨hfront, hfront⟩

/-! ## Its end -/

theorem note_stops (e : Event ι) : Stops (note e : Login σ ι Unit) fun _ => True :=
  Stops.ask fun _ => trivial

theorem say_stops (text : String) : Stops (say text : Login σ ι Unit) fun _ => True := note_stops _

theorem shutdown_stops (agent session : Option Addr) (sock rc : Int) :
    Stops (shutdown agent session sock rc : Login σ ι Int) fun _ => True := by
  apply Stops.bind (note_stops _)
  intro _ _
  apply Stops.bind (note_stops _)
  intro _ _
  apply Stops.bind (Q := fun _ => True)
  · cases session with
    | none => exact Stops.pure trivial
    | some session => exact Stops.bind (note_stops _) fun _ _ => note_stops _
  intro _ _
  apply Stops.bind (Q := fun _ => True)
  · exact Stops.ite (fun _ => note_stops _) fun _ => Stops.pure trivial
  intro _ _
  apply Stops.bind (say_stops _)
  intro _ _
  exact Stops.bind (note_stops _) fun _ _ => Stops.pure trivial

/-- A message, and the end. -/
theorem quit_stops (text : String) (agent session : Option Addr) (sock rc : Int) :
    Stops (do say text; shutdown agent session sock rc : Login σ ι Int) fun _ => True :=
  Stops.bind (say_stops text) fun _ _ => shutdown_stops agent session sock rc

theorem skipShell_stops (channel : Addr) (agent session : Option Addr) (sock rc : Int) :
    Stops (skipShell channel agent session sock rc : Login σ ι Int) fun _ => True :=
  Stops.bind (note_stops _) fun _ _ => shutdown_stops agent session sock rc

theorem ask_stops {α : Type} (answer : σ → α × σ) (event : α → Event ι) :
    Stops (ask answer event : Login σ ι α) fun _ => True := fun _ => trivial

theorem requestShell_stops (agent session : Option Addr) (sock : Int) :
    Stops (requestShell sys agent session sock) fun _ => True := by
  apply Stops.bind (ask_stops _ _)
  intro channel _
  cases channel with
  | none => exact quit_stops _ _ _ _ _
  | some channel =>
    apply Stops.bind (ask_stops _ _)
    intro _ _
    apply Stops.bind (ask_stops _ _)
    intro failed _
    apply Stops.ite
    · exact fun _ => Stops.bind (say_stops _) fun _ _ => skipShell_stops _ _ _ _ _
    intro _
    apply Stops.bind (ask_stops _ _)
    intro failed _
    apply Stops.ite
    · exact fun _ => quit_stops _ _ _ _ _
    · exact fun _ => skipShell_stops _ _ _ _ _

theorem search_stops (h : Lists sys ids) (agent : Addr) (hn : ids.length < n) :
    Stops (search sys n username agent) fun _ => True := by
  apply Stops.turns
    (fun m prev => ∃ front rest, ids = front ++ rest ∧ prev = front.getLast? ∧ m = rest.length)
  · rintro m prev ⟨front, rest, hids, rfl, rfl⟩
    cases rest with
    | nil =>
      rw [List.append_nil] at hids
      subst hids
      apply Stops.bind (Q := fun got => got = .ended)
      · exact Stops.ask (h.last agent)
      rintro got rfl
      exact Stops.pure trivial
    | cons identity rest =>
      apply Stops.bind (Q := fun got => got = .found identity)
      · exact Stops.ask fun s => h.next agent front identity rest s hids
      rintro got rfl
      apply Stops.bind (ask_stops _ _)
      intro rc _
      apply Stops.ite
      · intro _
        apply Stops.bind (note_stops _)
        intro _ _
        apply Stops.pure
        refine ⟨rest.length, Nat.lt_succ_self _, front ++ [identity], rest, ?_, ?_, rfl⟩
        · rw [hids, List.append_assoc, List.singleton_append]
        · exact List.getLast?_concat.symm
      · exact fun _ => Stops.bind (note_stops _) fun _ _ => Stops.pure trivial
  · exact ⟨[], ids, rfl, rfl, rfl⟩
  · exact hn

theorem useAgent_stops (h : Lists sys ids) (session : Option Addr) (sock : Int)
    (hn : ids.length < n) :
    Stops (useAgent sys n username session sock) fun _ => True := by
  apply Stops.bind (ask_stops _ _)
  intro agent _
  cases agent with
  | none => exact quit_stops _ _ _ _ _
  | some agent =>
    apply Stops.bind (ask_stops _ _)
    intro failed _
    apply Stops.ite
    · exact fun _ => quit_stops _ _ _ _ _
    intro _
    apply Stops.bind (ask_stops _ _)
    intro failed _
    apply Stops.ite
    · exact fun _ => quit_stops _ _ _ _ _
    intro _
    apply Stops.bind (search_stops h agent hn)
    intro r _
    cases r with
    | accepted => exact requestShell_stops _ _ _
    | exhausted => exact quit_stops _ _ _ _ _
    | failed => exact shutdown_stops _ _ _ _

theorem startSession_stops (h : Lists sys ids) (sock : Int) (hn : ids.length < n) :
    Stops (startSession sys n username sock) fun _ => True := by
  apply Stops.bind (ask_stops _ _)
  intro session _
  apply Stops.bind (ask_stops _ _)
  intro failed _
  apply Stops.ite
  · exact fun _ => Stops.bind (say_stops _) fun _ _ => Stops.pure trivial
  intro _
  apply Stops.bind (ask_stops _ _)
  intro fingerprint _
  apply Stops.bind (say_stops _)
  intro _ _
  cases fingerprint with
  | none => exact Stops.leave _
  | some fingerprint =>
    apply Stops.bind (Q := fun _ => True)
    · induction fingerprint.toList with
      | nil => exact Stops.pure trivial
      | cons c rest ih => exact Stops.bind (note_stops _) fun _ _ => ih
    intro _ _
    apply Stops.bind (say_stops _)
    intro _ _
    apply Stops.bind (ask_stops _ _)
    intro userauthlist _
    cases userauthlist with
    | none => exact Stops.leave _
    | some userauthlist =>
      apply Stops.bind (note_stops _)
      intro _ _
      apply Stops.ite
      · exact fun _ => quit_stops _ _ _ _ _
      · exact fun _ => useAgent_stops h _ _ hn

theorem main_stops (h : Lists sys ids) (hostaddr : ℕ) (hn : ids.length < n) :
    Stops (AgentLogin.main sys n username hostaddr) fun _ => True := by
  apply Stops.bind (ask_stops _ _)
  intro rc _
  apply Stops.ite
  · exact fun _ => Stops.bind (say_stops _) fun _ _ => Stops.pure trivial
  intro _
  apply Stops.bind (ask_stops _ _)
  intro sock _
  apply Stops.ite
  · exact fun _ => quit_stops _ _ _ _ _
  intro _
  apply Stops.bind (ask_stops _ _)
  intro failed _
  apply Stops.ite
  · exact fun _ => quit_stops _ _ _ _ _
  · exact fun _ => startSession_stops h sock hn

/-- With an agent that has a list of identities, the program comes to an end in one turn more than
there are identities. If it has got as far as the list, it has tried a first part of it in order: up
to the one that was accepted, which is the last, or all of it. -/
theorem identities_in_order (sys : System σ ι) (ids : List ι) (h : Lists sys ids) (n : ℕ)
    (username : List Byte) (hostaddr : ℕ) (s : σ) :
    let run := AgentLogin.main sys n username hostaddr s
    (ids.length < n → run.value ≠ .cut) ∧
      ∀ rc, run.value = .value rc → (summaryOf run.log).listed = some 0 →
        (∃ front identity rest, ids = front ++ identity :: rest ∧
          (summaryOf run.log).attempts.map Prod.fst = front ++ [identity] ∧
          (∀ u ∈ (summaryOf run.log).attempts.dropLast, u.2 ≠ 0) ∧
          (summaryOf run.log).attempts.getLast? = some (identity, 0)) ∨
        (summaryOf run.log).attempts.map Prod.fst = ids ∧
          ∀ u ∈ (summaryOf run.log).attempts, u.2 ≠ 0 := by
  intro run
  have hmeets := @main_at _ _ _ n username _ h.searches hostaddr
  refine ⟨fun hn => (main_stops h hostaddr hn).not_cut s, ?_⟩
  intro rc hrc hlisted
  obtain ⟨r, htried, horder⟩ := (hmeets.value rfl hrc).searched hlisted
  cases r with
  | accepted =>
    obtain ⟨front, identity, hattempts, hrefused⟩ := htried
    obtain ⟨rest, hids⟩ := horder
    left
    refine ⟨front.map Prod.fst, identity, rest, ?_, ?_, ?_, ?_⟩
    · rw [← hids, hattempts]
      simp
    · rw [hattempts]
      simp
    · rw [hattempts, List.dropLast_concat]
      exact hrefused
    · rw [hattempts, List.getLast?_concat]
  | exhausted => exact .inr ⟨horder, htried⟩
  | failed => exact horder.elim

/-- An agent with two keys, of which the server takes the second. -/
def twoKeys : System Unit ℕ where
  init s := (0, s)
  socket s := (3, s)
  connect _ _ s := (0, s)
  sessionInit s := (some 1, s)
  handshake _ _ s := (0, s)
  hostkeyHash _ s := (some (List.Vector.replicate 20 0), s)
  userauthList _ _ s := (some publickey, s)
  agentInit _ s := (some 2, s)
  agentConnect _ s := (0, s)
  agentListIdentities _ s := (0, s)
  agentGetIdentity _ prev s :=
    match prev with
    | none => (.found 1, s)
    | some 1 => (.found 2, s)
    | some _ => (.ended, s)
  agentUserauth _ _ identity s := (if identity = 2 then 0 else -18, s)
  comment _ := []
  channelOpenSession _ s := (some 3, s)
  channelSetenv _ s := (0, s)
  channelRequestPty _ s := (0, s)
  channelShell _ s := (0, s)

theorem twoKeys_lists : Lists twoKeys [1, 2] where
  next agent front identity rest s hids := by
    cases front with
    | nil =>
      cases hids
      rfl
    | cons a front =>
      obtain ⟨rfl, hids⟩ := List.cons.inj hids
      cases front with
      | nil =>
        cases hids
        rfl
      | cons b front =>
        obtain ⟨-, hids⟩ := List.cons.inj hids
        exact absurd hids.symm (by simp)
  last _ _ := rfl

theorem identities_in_order_twoKeys :
    (AgentLogin.main twoKeys 3 [] 0 ()).value ≠ .cut ∧
      ((∃ front identity rest, [1, 2] = front ++ identity :: rest ∧
        (summaryOf (AgentLogin.main twoKeys 3 [] 0 ()).log).attempts.map Prod.fst =
        front ++ [identity] ∧
        (∀ u ∈ (summaryOf (AgentLogin.main twoKeys 3 [] 0 ()).log).attempts.dropLast, u.2 ≠ 0) ∧
        (summaryOf (AgentLogin.main twoKeys 3 [] 0 ()).log).attempts.getLast? =
        some (identity, 0)) ∨
      (summaryOf (AgentLogin.main twoKeys 3 [] 0 ()).log).attempts.map Prod.fst = [1, 2] ∧
        ∀ u ∈ (summaryOf (AgentLogin.main twoKeys 3 [] 0 ()).log).attempts, u.2 ≠ 0) :=
  ⟨(identities_in_order twoKeys [1, 2] twoKeys_lists 3 [] 0 ()).1 (by decide),
    (identities_in_order twoKeys [1, 2] twoKeys_lists 3 [] 0 ()).2 0 rfl rfl⟩

end CloudSsh.AgentRuns
