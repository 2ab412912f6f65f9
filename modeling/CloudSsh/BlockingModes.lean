import CloudSsh.FailedAttempts
import CloudSsh.RelayLoop

/-!
# Releases and blocking modes

In non-blocking mode libssh2 may put a release off. The destructors do not ask again, so
that an object is freed for sure exactly if its session is in blocking mode when its
destructor runs. At the end of `main` no session is.
-/
namespace CloudSsh.BlockingModes
open CountedHeap ResourceTraces Calls RecordedPrograms LibraryCalls WrapperObjects WrapperClasses
open PublicOperations OperationSteps CallByCall ConnectionAttempts AttemptOutcomes FailedAttempts
open RelayLoop (libssh2ErrorEagain)

variable {tr before after : Trace} {x : Call} {r : Resource} {codes : ℕ → Int}

/-! ## Modes -/

/-- What libssh2 frees later when it would block. -/
def Deferrable : Resource → Bool
  | .channel _ | .listener _ | .session _ => true
  | .library _ | .descriptor _ => false

/-- The session that a call on a resource goes through. -/
def sessions (tr : Trace) : Resource → List ℕ
  | .session s => [s]
  | r => tr.filterMap fun x =>
    match x.effect with
    | .acquire r' (some (.session s)) => if r' = r then some s else none
    | _ => none

/-- The mode that a call puts a session in. The mode of a channel is that of its session. -/
def setsMode (tr : Trace) (s : ℕ) : Call → Option Bool
  | .session (.setBlocking b) (some s') _ => if s' = s then some b else none
  | .channel (.setBlocking b) (some c) _ => if s ∈ sessions tr (.channel c) then some b else none
  | _ => none

/-- The mode of a session. A new one blocks. -/
def blocking (tr : Trace) (s : ℕ) : Bool := ((tr.filterMap (setsMode tr s)).getLast?).getD true

def InBlockingMode (tr : Trace) (r : Resource) : Prop := ∀ s ∈ sessions tr r, blocking tr s = true

instance : Decidable (InBlockingMode tr r) :=
  inferInstanceAs (Decidable (∀ s ∈ sessions tr r, blocking tr s = true))

theorem mem_sessions_channel {c s : ℕ} :
    s ∈ sessions tr (.channel c) ↔ StandsOn tr (.channel c) (.session s) := by
  simp only [sessions, List.mem_filterMap, StandsOn]
  refine exists_congr fun x => and_congr_right fun _ => ?_
  rw [effect_eq]
  split <;> simp_all

theorem blocking_of_last {s : ℕ} {b : Bool} (htr : tr = before ++ x :: after)
    (hx : setsMode tr s x = some b) (hafter : ∀ y ∈ after, setsMode tr s y = none) :
    blocking tr s = b := by
  have hnil : after.filterMap (setsMode tr s) = [] := List.filterMap_eq_nil_iff.mpr hafter
  have hall : tr.filterMap (setsMode tr s) = before.filterMap (setsMode tr s) ++ [b] := by
    refine (congrArg (List.filterMap (setsMode tr s)) htr).trans ?_
    rw [List.filterMap_append, List.filterMap_cons_some hx, hnil]
  rw [blocking, hall, List.getLast?_concat, Option.getD_some]

/-! ## The answers of the release functions -/

/-- The `i`-th call may be answered `codes i`: a release is put off in non-blocking mode only. -/
def Possible (tr : Trace) (codes : ℕ → Int) : Prop :=
  ∀ before x after r, tr = before ++ x :: after → effect x = .release r → Deferrable r = true →
    InBlockingMode before r → codes before.length ≠ libssh2ErrorEagain

/-- A release was not put off. -/
def Freed (tr : Trace) (codes : ℕ → Int) (r : Resource) : Prop :=
  ∃ before x after, tr = before ++ x :: after ∧ effect x = .release r ∧
    codes before.length ≠ libssh2ErrorEagain

/-- When a destructor that releases `r` returns, `r` is freed. -/
def Completed (tr : Trace) (codes : ℕ → Int) (r : Resource) : Prop :=
  ∀ before x after, tr = before ++ x :: after → effect x = .release r →
    Freed (before ++ [x]) codes r

def ReleasedNonBlocking (tr : Trace) (r : Resource) : Prop :=
  ∃ before x after, tr = before ++ x :: after ∧ effect x = .release r ∧ ¬ InBlockingMode before r

theorem ReleasedNonBlocking.released (h : ReleasedNonBlocking tr r) : Released tr r := by
  obtain ⟨before, x, after, rfl, hx, -⟩ := h
  exact ⟨x, by simp, hx⟩

/-- The answers that put off what can be put off. -/
def worst (tr : Trace) (i : ℕ) : Int :=
  match tr[i]?.map effect with
  | some (.release r) => if InBlockingMode (tr.take i) r then 0 else libssh2ErrorEagain
  | _ => 0

theorem worst_at (htr : tr = before ++ x :: after) (hx : effect x = .release r) :
    worst tr before.length = if InBlockingMode before r then 0 else libssh2ErrorEagain := by
  have hget : tr[before.length]? = some x := by simp [htr]
  have htake : tr.take before.length = before := by simp [htr]
  simp [worst, hget, htake, hx]

theorem possible_worst (tr : Trace) : Possible tr (worst tr) := by
  intro before x after r htr hx _ hmode
  rw [worst_at htr hx, if_pos hmode]
  decide

theorem not_freed_worst (honce : ReleasedOnce tr) (h : ReleasedNonBlocking tr r) :
    ¬ Freed tr (worst tr) r := by
  obtain ⟨before, x, after, htr, hx, hmode⟩ := h
  rintro ⟨before', y, after', htr', hy, hcode⟩
  obtain rfl := honce.unique htr hx htr' hy
  rw [worst_at htr hx, if_neg hmode] at hcode
  exact hcode rfl

theorem Freed.append (h : Freed tr codes r) (tr' : Trace) : Freed (tr ++ tr') codes r := by
  obtain ⟨before, x, after, rfl, hx, hcode⟩ := h
  exact ⟨before, x, after ++ tr', by simp, hx, hcode⟩

theorem Completed.freed (h : Completed tr codes r) (hr : Released tr r) : Freed tr codes r := by
  obtain ⟨x, hmem, hx⟩ := hr
  obtain ⟨before, after, rfl⟩ := List.append_of_mem hmem
  have hfreed := (h before x after rfl hx).append after
  rwa [← List.append_cons] at hfreed

theorem releasedNonBlocking_at (i : ℕ) (hx : tr[i]?.map effect = some (.release r))
    (hmode : ¬ InBlockingMode (tr.take i) r) : ReleasedNonBlocking tr r := by
  obtain ⟨x, hget, he⟩ := Option.map_eq_some_iff.mp hx
  obtain ⟨hlt, rfl⟩ := List.getElem?_eq_some_iff.mp hget
  refine ⟨tr.take i, tr[i], tr.drop (i + 1), ?_, he, hmode⟩
  rw [List.cons_getElem_drop_succ, List.take_append_drop]

theorem not_completed_worst (honce : ReleasedOnce tr) (h : ReleasedNonBlocking tr r) :
    ¬ Completed tr (worst tr) r := fun hc => not_freed_worst honce h (hc.freed h.released)

theorem releasedOnce_run (os : List Operation) : ReleasedOnce (State.initial.run os).trace :=
  (exclusive_run os).ledger.once

/-- The answers never matter exactly if the release comes in blocking mode. -/
theorem completed_iff (honce : ReleasedOnce tr) (hr : Deferrable r = true) :
    (∀ codes, Possible tr codes → Completed tr codes r) ↔ ¬ ReleasedNonBlocking tr r := by
  constructor
  · exact fun h hnon => not_completed_worst honce hnon (h _ (possible_worst tr))
  · intro h codes hcodes before x after htr hx
    refine ⟨before, x, [], rfl, hx, hcodes before x after r htr hx hr ?_⟩
    by_contra hmode
    exact h ⟨before, x, after, htr, hx, hmode⟩

/-! ## The end of `main` -/

/-- One pass of the loop: what `read` answers, and the byte that is typed with what `write`
answers. -/
structure Pass where
  read : Int
  typed : Option (UInt8 × Int)

def Pass.operations (c : ℕ) (p : Pass) : List Operation :=
  [.channelMethod .isEof c 0, .channelMethod (.read 65536) c p.read] ++
    (p.typed.map fun t => Operation.channelMethod (.writeChar t.1) c t.2).toList

/-- What `main` does with its variables `ssh` and `channel`, which go in the opposite order. -/
def mainOperations (account : Account) (r : Answers) (passes : List Pass) (eof : Int) (ssh c : ℕ) :
    List Operation :=
  [.connect account r, .sshChannel ssh, .channelMethod .clearBlocking c 0] ++
    (passes.flatMap (Pass.operations c) ++ [.channelMethod .isEof c eof]) ++
    [.dropHandle ⟨.channel, c⟩, .dropHandle ⟨.ssh, ssh⟩]

/-- What a pass asks of the channel once it is not at its end. -/
def bodyMethods (p : Pass) : List (ChannelMethod × Int) :=
  (.read 65536, p.read) :: (p.typed.map fun t => (ChannelMethod.writeChar t.1, t.2)).toList

def loopMethods (passes : List Pass) (eof : Int) : List (ChannelMethod × Int) :=
  passes.flatMap (fun p => (.isEof, 0) :: bodyMethods p) ++ [(.isEof, eof)]

theorem passes_operations (passes : List Pass) (eof : Int) (c : ℕ) :
    passes.flatMap (Pass.operations c) ++ [.channelMethod .isEof c eof] =
      (loopMethods passes eof).map fun m => Operation.channelMethod m.1 c m.2 := by
  have hpass : ∀ p : Pass, Pass.operations c p =
      ((.isEof, 0) :: bodyMethods p).map fun m => Operation.channelMethod m.1 c m.2 := by
    intro p
    cases hp : p.typed <;> simp [Pass.operations, bodyMethods, hp]
  rw [loopMethods, List.map_append, List.map_flatMap, funext hpass]
  rfl

/-- The methods of the loop leave the mode as it is. -/
theorem loopMethods_function (passes : List Pass) (eof : Int) :
    ∀ m ∈ loopMethods passes eof, ∀ b, m.1.function ≠ .setBlocking b := by
  refine List.forall_mem_append.mpr
    ⟨fun m hm => ?_, by rintro m hm; cases List.mem_singleton.mp hm; nofun⟩
  obtain ⟨p, -, hm⟩ := List.mem_flatMap.mp hm
  rcases List.mem_cons.mp hm with rfl | hm
  · nofun
  rcases List.mem_cons.mp hm with rfl | hm
  · nofun
  obtain ⟨t, -, rfl⟩ := List.mem_map.mp (Option.toList_map ▸ hm)
  nofun

section Main

variable {s : State} {m : Memory} {hs : List Addr} {c : ℕ} {d : Cell Addr Wrapper}

theorem sshChannel_runs {n k : ℕ}
    (hd : cellAt m.heap ⟨.ssh, n⟩ = some ⟨⟨.ssh, n⟩, k, .ssh (some c)⟩) :
    Runs recorder (Operation.sshChannel n).program m (.ok [⟨.channel, c⟩]) []
      { m with heap := retain ⟨.channel, c⟩ m.heap } := by
  have hview := objectAt_runs (m := m) ⟨.ssh, n⟩
  rw [hd] at hview
  exact hview.bind ((share_runs _).bind (Runs.pure _))

theorem channelMethod_runs (hd : cellAt m.heap ⟨.channel, c⟩ = some d)
    (f : ChannelMethod) (ret : Int) :
    Runs recorder (Operation.channelMethod f c ret).program m (.ok [])
      [.channel f.function d.obj.handle ret] m :=
  (call_runs hd (.channel f.function · ret) ret).bind (Runs.pure [])

theorem dropHandle_runs {a : Addr} {calls : Trace} {h : Objects} (hd : Drops [a] m.heap calls h) :
    Runs recorder (Operation.dropHandle a).program m (.ok []) calls { m with heap := h } :=
  ((drop_runs hd).bind (Runs.pure [])).congr (List.append_nil _) rfl

/-- Methods of the channel change nothing but the calls made so far. -/
theorem has_methods (h : Has s m hs tr) (hc : ⟨.channel, c⟩ ∈ hs)
    (hd : cellAt m.heap ⟨.channel, c⟩ = some d) (ms : List (ChannelMethod × Int)) :
    Has (s.run (ms.map fun m => .channelMethod m.1 c m.2)) m hs
      (tr ++ ms.map fun m => .channel m.1.function d.obj.handle m.2) := by
  induction ms generalizing s tr with
  | nil => exact (List.append_nil tr).symm ▸ h
  | cons x ms ih =>
    have hstep := h.step (by simp [Operation.pointers]) (by simpa [Operation.receivers] using hc)
      (channelMethod_runs hd x.1 x.2)
    have hrest := ih hstep
    rw [List.append_assoc] at hrest
    exact hrest

/-- The object behind `ssh`, its copy of the channel's pointer, the loop and the two destructors. -/
theorem has_main {r : Answers} {n : ℕ} {calls : Trace} {t : Numbers} {h : Objects}
    (hs : Has s m [⟨.ssh, n⟩] tr) (ho : Opened n m r calls t h) (ms : List (ChannelMethod × Int)) :
    (s.run ([.sshChannel n] ++ (ms.map fun m => .channelMethod m.1 (t.first + 2) m.2) ++
        [.dropHandle ⟨.channel, t.first + 2⟩, .dropHandle ⟨.ssh, n⟩])).trace =
      tr ++ (ms.map fun m => .channel m.1.function (some t.channel) m.2) ++
        .channelFree (some t.channel) :: closingCalls t.toHandles := by
  obtain ⟨heap, nextHandle, nextObject, ptr⟩ := m
  obtain rfl : heap = openedHeap t h := ho.heap
  have hshared : cellAt (retain ⟨.channel, t.first + 2⟩ (openedHeap t h)) ⟨.channel, t.first + 2⟩ =
      some (t.channelCell 2) :=
    cellAt_retain (c := t.channelCell 1) (by simp [openedHeap, cellAt_cons, Numbers.channelCell])
  have hdrop : Drops [⟨.channel, t.first + 2⟩] (retain ⟨.channel, t.first + 2⟩ (openedHeap t h)) []
      (openedHeap t h) := by
    have hleft := Drops.shared hshared (by simp [Numbers.channelCell]) (Drops.nil _)
    rwa [forget_retain] at hleft
  have htaken := hs.step (by simp [Operation.pointers]) (by simp [Operation.receivers])
    (sshChannel_runs ((cellAt_opened t h n).trans ho.ssh))
  have hlooped := has_methods htaken (by simp [Operation.spent]) hshared ms
  have hdropped := hlooped.step (by simp [Operation.pointers, Operation.spent])
    (by simp [Operation.receivers]) (dropHandle_runs hdrop)
  have hended := hdropped.step (by simp [Operation.pointers, Operation.spent])
    (by simp [Operation.receivers]) (dropHandle_runs (drop_ssh_channel ho.base ho.ssh))
  have htrace := hended.trace
  simp only [State.run, List.foldl_append]
  refine htrace.trans ?_
  simp [Numbers.channelCell, Wrapper.handle]

theorem connect_has {account : Account} {r : Answers} {n : ℕ} {w : World}
    (hn : SSH.construct account r State.initial.world = (.ok n, w)) :
    ∃ m t h calls, Has (State.initial.step (.connect account r)) m [⟨.ssh, n⟩] calls ∧
      Opened n m r calls t h ∧ recorder.core w = m := by
  obtain ⟨res, m, hrun, hok, herr⟩ := construct_runs (ready_run []) account r
  obtain ⟨hres, hcore, -⟩ := hrun State.initial.world rfl
  rw [hn] at hres hcore
  cases hcalls : (callsFrom State.initial account r).2 with
  | false =>
    obtain ⟨e, rfl⟩ := herr hcalls
    exact nomatch hres
  | true =>
    obtain ⟨rfl, t, h, hopen⟩ := hok hcalls
    obtain rfl : n = 0 := Except.ok.inj hres
    have hstep := Has.step (s := State.initial) (o := .connect account r) ⟨rfl, rfl, rfl⟩
      (by simp [Operation.pointers]) (by simp [Operation.receivers]) (handlesOf_runs .ssh hrun)
    exact ⟨m, t, h, _, hstep, hopen, hcore⟩

theorem opened_channel {r : Answers} {n : ℕ} {calls : Trace} {t : Numbers} {h : Objects} {w : World}
    (ho : Opened n m r calls t h) (hw : recorder.core w = m)
    (hc : objectAt ⟨.ssh, n⟩ w = some (.ssh (some c))) :
    c = t.first + 2 ∧ handleAt ⟨.channel, c⟩ w = some t.channel := by
  have hheap : w.heap = openedHeap t h := (congrArg Memory.heap hw).trans ho.heap
  obtain rfl : c = t.first + 2 := by
    rw [objectAt, hheap, cellAt_opened, ho.ssh] at hc
    simpa using hc.symm
  refine ⟨rfl, ?_⟩
  rw [handleAt, objectAt, hheap]
  simp [openedHeap, cellAt_cons, Numbers.channelCell, Wrapper.handle]

/-- With `clear_blocking` as the last call that sets its session's mode. -/
theorem released_nonBlocking {s k : ℕ} {loop : Trace}
    (htr : tr = before ++ .channel (.setBlocking false) (some k) 0 :: (loop ++ x :: after))
    (hon : StandsOn before (.channel k) (.session s)) (hx : effect x = .release r)
    (hr : r = .channel k ∨ r = .session s) (hloop : ∀ y ∈ loop, ∀ b h ret,
      y ≠ .channel (.setBlocking b) h ret ∧ y ≠ .session (.setBlocking b) h ret) :
    ReleasedNonBlocking tr r := by
  have hs : s ∈ sessions (before ++ .channel (.setBlocking false) (some k) 0 :: loop)
    (.channel k) := by
    obtain ⟨y, hy, he⟩ := hon
    exact mem_sessions_channel.mpr ⟨y, List.mem_append_left _ hy, he⟩
  have hmode : blocking (before ++ .channel (.setBlocking false) (some k) 0 :: loop) s = false := by
    refine blocking_of_last rfl (if_pos hs) fun y hy => ?_
    have hset := fun b => hloop y hy b
    unfold setsMode
    split
    · exact absurd rfl (hset _ _ _).2
    · exact absurd rfl (hset _ _ _).1
    · rfl
  refine ⟨before ++ .channel (.setBlocking false) (some k) 0 :: loop, x, after,
    by simpa using htr, hx, fun hb => ?_⟩
  rcases hr with rfl | rfl
  · simp [hb s hs] at hmode
  · simp [hb s (by simp [sessions])] at hmode

/-- Both releases at the end of `main` come in non-blocking mode. -/
theorem main_releases {account : Account} {r : Answers} {n : ℕ} {w : World} (passes : List Pass)
    (eof : Int) (hn : SSH.construct account r State.initial.world = (.ok n, w))
    (hc : objectAt ⟨.ssh, n⟩ w = some (.ssh (some c))) (hinit : r.sessionInit = true)
    (htr : tr = (State.initial.run (mainOperations account r passes eof n c)).trace) :
    ∃ k s, handleAt ⟨.channel, c⟩ w = some k ∧ StandsOn tr (.channel k) (.session s) ∧
      ∀ r ∈ [Resource.channel k, .session s], ReleasedNonBlocking tr r := by
  obtain ⟨m, t, h, calls, hs, ho, hw⟩ := connect_has hn
  obtain ⟨rfl, hk⟩ := opened_channel ho hw hc
  obtain ⟨s, hsession⟩ : ∃ s, t.session = some s := by
    have hnext : t.session = if r.sessionInit then some (t.fd + 1) else none :=
      congrArg Handles.session ho.next
    exact ⟨_, by rw [hnext, if_pos hinit]⟩
  obtain ⟨loop, hloop⟩ : ∃ loop, loop = (loopMethods passes eof).map fun m =>
      Call.channel m.1.function (some t.channel) m.2 := ⟨_, rfl⟩
  have htrace : tr = calls ++ .channel (.setBlocking false) (some t.channel) 0 ::
      (loop ++ .channelFree (some t.channel) :: closingCalls t.toHandles) := by
    have hrun := has_main hs ho ((.clearBlocking, 0) :: loopMethods passes eof)
    rw [htr, mainOperations, passes_operations, hloop]
    refine hrun.trans ?_
    rw [List.append_assoc]
    rfl
  rw [closingCalls, hsession] at htrace
  have hon : StandsOn calls (.channel t.channel) (.session s) := by
    refine ⟨_, ho.opens, ?_⟩
    rw [hsession]
    rfl
  have hkeeps : ∀ y ∈ loop ++ [.channelFree (some t.channel)], ∀ b h ret,
      y ≠ .channel (.setBlocking b) h ret ∧ y ≠ .session (.setBlocking b) h ret := by
    intro y hy b h ret
    rcases List.mem_append.mp hy with hy | hy
    · rw [hloop] at hy
      obtain ⟨m, hm, rfl⟩ := List.mem_map.mp hy
      simpa using fun hb _ => absurd hb (loopMethods_function passes eof m hm b)
    · rw [List.mem_singleton.mp hy]
      simp
  refine ⟨t.channel, s, hk, ?_, List.forall_mem_cons.mpr ⟨?_, List.forall_mem_singleton.mpr ?_⟩⟩
  · obtain ⟨y, hy, he⟩ := hon
    exact htrace ▸ ⟨y, List.mem_append_left _ hy, he⟩
  · exact released_nonBlocking htrace hon rfl (.inl rfl)
      fun y hy => hkeeps y (List.mem_append_left _ hy)
  · have hlast : tr = calls ++ .channel (.setBlocking false) (some t.channel) 0 ::
        ((loop ++ [.channelFree (some t.channel)]) ++
          .sessionFree (some s) :: [.close (some t.fd)]) := by
      rw [htrace, List.append_assoc]
      rfl
    exact released_nonBlocking hlast hon rfl (.inr rfl) hkeeps

end Main

/-- The releases of a run are completed, whatever they are answered, exactly if they come in
blocking mode. If it is a run of `main` with a connection, those of the channel and of its session
do not, and both may be put off. -/
theorem released_for_sure_iff (os : List Operation) :
    (∀ r, Deferrable r = true →
      ((∀ codes, Possible (State.initial.run os).trace codes →
        Completed (State.initial.run os).trace codes r) ↔
        ¬ ReleasedNonBlocking (State.initial.run os).trace r)) ∧
    ∀ account r passes eof n c w, os = mainOperations account r passes eof n c →
      SSH.construct account r State.initial.world = (.ok n, w) →
      objectAt ⟨.ssh, n⟩ w = some (.ssh (some c)) → r.sessionInit = true →
      ∃ k s codes, handleAt ⟨.channel, c⟩ w = some k ∧
        StandsOn (State.initial.run os).trace (.channel k) (.session s) ∧
        Possible (State.initial.run os).trace codes ∧
        ∀ r ∈ [Resource.channel k, .session s],
          Released (State.initial.run os).trace r ∧
            ¬ Freed (State.initial.run os).trace codes r := by
  refine ⟨fun r hr => completed_iff (releasedOnce_run os) hr, ?_⟩
  rintro account r passes eof n c w rfl hn hc hinit
  obtain ⟨k, s, hk, hon, hreleases⟩ := main_releases passes eof hn hc hinit rfl
  exact ⟨k, s, worst _, hk, hon, possible_worst _, fun r hr => ⟨(hreleases r hr).released,
    not_freed_worst (releasedOnce_run _) (hreleases r hr)⟩⟩

theorem released_for_sure_iff_main :
    let account : Account := ⟨some [], 22, [], []⟩
    let r : Answers :=
      ⟨⟨true, fun _ => 0, 0⟩, 0, true, 0, some (bytes "password"), false, 0, true, 0, 0⟩
    let tr := (State.initial.run (mainOperations account r [⟨-37, some (97, 1)⟩] 1 0 4)).trace
    (¬ ∀ codes, Possible tr codes → Completed tr codes (.channel 3)) ∧
      ∃ k s codes, handleAt ⟨.channel, 4⟩ (SSH.construct account r State.initial.world).2 = some k ∧
        StandsOn tr (.channel k) (.session s) ∧ Possible tr codes ∧
        ∀ r ∈ [Resource.channel k, .session s], Released tr r ∧ ¬ Freed tr codes r := by
  refine ⟨fun h => ((released_for_sure_iff _).1 _ rfl).mp h ?_,
    (released_for_sure_iff _).2 _ _ _ _ 0 4 _ rfl rfl rfl rfl⟩
  exact releasedNonBlocking_at 16 (by decide) (by decide)

/-- `main` without a pass of the loop: what the connection opened stays allocated. -/
theorem main_puts_off_releases :
    let account : Account := ⟨some [], 22, [], []⟩
    let r : Answers :=
      ⟨⟨true, fun _ => 0, 0⟩, 0, true, 0, some (bytes "password"), false, 0, true, 0, 0⟩
    let tr := (State.initial.run (mainOperations account r [] 1 0 4)).trace
    Possible tr (worst tr) ∧ ¬ Completed tr (worst tr) (.channel 3) ∧
      ¬ Completed tr (worst tr) (.session 2) := by
  refine ⟨possible_worst _, not_completed_worst (releasedOnce_run _) ?_,
    not_completed_worst (releasedOnce_run _) ?_⟩
  · exact releasedNonBlocking_at 13 (by decide) (by decide)
  · exact releasedNonBlocking_at 14 (by decide) (by decide)

end CloudSsh.BlockingModes
