import CloudSsh.PublicOperations

/-!
# What the operations are confined to

A program is confined when it makes certain calls only and overwrites objects at certain
addresses only. It then keeps every assertion about the world that those calls and
overwritings keep, with the copying and dropping of pointers and the making of objects.
-/
namespace CloudSsh.Confinement
open CountedHeap ScopedPrograms LibraryCalls WrapperObjects WrapperClasses PublicOperations

/-- The calls that may be made, the objects that may be overwritten, and whether the static
`Libssh2::ptr` may be set. -/
structure Limits where
  calls : Call → Prop
  overwrites : Addr → Prop
  static : Prop

/-- What the primitives keep within limits. -/
structure Closed (L : Limits) (P : World → Prop) : Prop where
  issue : ∀ {x w}, L.calls x → P w → P (w.onStore (Store.issue x))
  obtain : ∀ {x w}, L.calls x → P w → P (w.onStore (Store.obtain x))
  share : ∀ {a w}, P w → P (w.onStore (Store.share a))
  place : ∀ {o w}, P w → P (w.onStore (Store.place o))
  overwrite : ∀ {a o w}, L.overwrites a → P w → P (w.onStore (Store.overwrite a o))
  drop : ∀ {a w}, P w → P (w.onStore (Store.drop a))
  static : ∀ {p} {w : World}, L.static → P w → P { w with ptr := p }

variable {α β : Type} {L : Limits} {a : Addr} {x : Call}

def Confined (L : Limits) (p : M α) : Prop := ∀ P, Closed L P → Triple P p (fun _ => P) fun _ => P

namespace Confined

theorem pure (v : α) : Confined L (pure v : M α) := fun _ _ => Triple.pure fun _ h => h

theorem raise (e : Exn) : Confined L (raise e : M α) := fun _ _ => Triple.raise fun _ h => h

theorem bind {p : M α} {f : α → M β} (hp : Confined L p) (hf : ∀ v, Confined L (f v)) :
    Confined L (p >>= f) := fun P hP => Triple.bind (hp P hP) fun v => hf v P hP

theorem ite {p q : M α} {b : Prop} [Decidable b] (hp : Confined L p) (hq : Confined L q) :
    Confined L (if b then p else q) := fun P hP => Triple.ite (fun _ => hp P hP) fun _ => hq P hP

theorem raiseIf (b : Prop) [Decidable b] (e : Exn) : Confined L (raiseIf b e : M Unit) :=
  ite (raise e) (pure ())

theorem view (f : World → α) : Confined L (view f : M α) := fun _ _ _ h => h

theorem static (hS : L.static) (p : Option ℕ) :
    Confined L (update fun w : World => { w with ptr := p } : M Unit) :=
  fun _ hP _ h => hP.static hS h

theorem issue (hx : L.calls x) : Confined L (issue x) := fun _ hP _ h => hP.issue hx h

theorem acquire (granted : Bool) {x : Option ℕ → Call} (hx : ∀ n, L.calls (x n)) :
    Confined L (acquire granted x) := by
  intro P hP w h
  cases granted with
  | false => exact hP.issue (hx none) h
  | true => exact hP.obtain (hx _) h

theorem share (a : Addr) : Confined L (share a) := fun _ hP _ h => hP.share h

theorem place (o : Wrapper) : Confined L (place o) := fun _ hP _ h => hP.place h

theorem drop (a : Addr) : Confined L (drop a) := fun _ hP _ h => hP.drop h

theorem holding {p : M α} (a : Addr) (hp : Confined L p) : Confined L (holding a p) :=
  fun P hP => Triple.ensuring (hp P hP) (fun _ _ h => hP.drop h) fun _ _ h => hP.drop h

theorem withCopy {p : M α} (a : Addr) (hp : Confined L p) : Confined L (withCopy a p) :=
  bind (share a) fun _ => holding a hp

theorem unwinding {p : M α} (a : Addr) (hp : Confined L p) :
    Confined L (unwinding (World.onStore (Store.drop a)) p) :=
  fun P hP => Triple.unwinding _ (hp P hP) fun _ _ h => hP.drop h

theorem assign (ha : L.overwrites a) (o : Wrapper) (old : Option Addr) :
    Confined L (assign a o old) := by
  refine bind (fun P hP w h => hP.overwrite ha h) fun _ => ?_
  cases old with
  | none => exact pure ()
  | some b => exact drop b

end Confined

/-- A method that looks at the handle of its object and makes one call. -/
theorem callOf_confined (a : Addr) {x : Option ℕ → Call} (v : α) (hx : ∀ h, L.calls (x h)) :
    Confined L (do issue (x (← view (handleAt a))); pure v) :=
  .bind (.view _) fun h => .bind (.issue (hx h)) fun _ => .pure v

/-! ## The classes -/

theorem openOn_confined (s : ℕ) (granted : Bool) {x : Option ℕ → Option ℕ → Call}
    (object : Option ℕ → Wrapper) (what : String) (hx : ∀ h n, L.calls (x h n)) :
    Confined L (openOn s granted x object what) := by
  refine .withCopy _ (.bind (.share _) fun _ => .bind (.view _) fun raw => ?_)
  refine .bind (.acquire _ (hx raw)) fun h => ?_
  cases h with
  | none => exact .bind (.drop _) fun _ => .raise _
  | some h => exact .place _

theorem assignChannel_confined {ssh : ℕ} (hA : L.overwrites ⟨.ssh, ssh⟩) (channel : Option ℕ) :
    Confined L (SSH.assignChannel ssh channel) := by
  refine .bind (.view _) fun o => ?_
  rcases o with _ | o
  · exact .pure ()
  cases o with
  | ssh old => exact .assign hA _ _
  | _ => exact .pure ()

theorem resetPtr_confined (hS : L.static) : Confined L resetPtr := by
  refine .bind (.view _) fun p => ?_
  cases p with
  | none => exact .pure ()
  | some n => exact .bind (.static hS _) fun _ => .drop _

theorem shareAll_confined (as : List Addr) : Confined L (shareAll as) := by
  induction as with
  | nil => exact .pure ()
  | cons a as ih => exact .bind (.share a) fun _ => ih

theorem copyObject_confined (a : Addr) : Confined L (copyObject a) := by
  refine .bind (.view _) fun o => ?_
  cases o with
  | none => exact .pure none
  | some o => exact .bind (shareAll_confined _) fun _ => .bind (.place o) fun _ => .pure _

theorem assignObject_confined {a b : Addr} (hA : L.overwrites a) :
    Confined L (assignObject a b) := by
  refine .bind (.view _) fun o => .bind (.view _) fun o' => ?_
  rcases o with _ | o
  · exact .pure ()
  rcases o' with _ | o'
  · cases o <;> exact .pure ()
  cases o <;> cases o' <;> try exact .pure ()
  case some.some.socket.socket => exact .assign hA _ _
  case some.some.session.session =>
    exact .bind (.share _) fun _ => .bind (.assign hA _ _) fun _ =>
      .bind (shareAll_confined _) fun _ => .assign hA _ _
  case some.some.channel.channel | some.some.listener.listener =>
    exact .bind (.share _) fun _ => .assign hA _ _
  case some.some.ssh.ssh => exact .bind (shareAll_confined _) fun _ => .assign hA _ _

/-- Not a call that asks the system for a descriptor. -/
def NoSocket (x : Call) : Prop := ∀ domain type protocol ret, x ≠ .socket domain type protocol ret

/-- The operations that ask the system for a descriptor. -/
def AsksForDescriptor : Operation → Prop
  | .socketCreate .. | .connect .. | .connectToSsh .. => True
  | _ => False

/-- What an operation overwrites or sets is within limits. -/
def Within (L : Limits) : Operation → Prop
  | .create _ | .resetPtr => L.static
  | .handshake s _ _ => L.overwrites ⟨.session, s⟩
  | .assignChannel ssh _ => L.overwrites ⟨.ssh, ssh⟩
  | _ => True

section Calls

variable (hC : ∀ x, NoSocket x → L.calls x)

include hC

theorem create_confined (hS : L.static) (rc : Int) : Confined L (Libssh2.create rc) := by
  refine .bind (.view _) fun p => ?_
  cases p with
  | some n => exact .bind (.share _) fun _ => .pure n
  | none =>
    refine .bind (.acquire _ fun n => hC _ (by simp [NoSocket])) fun lib => ?_
    cases lib with
    | none => exact .raise _
    | some lib =>
      exact .bind (.place _) fun n => .bind (.static hS _) fun _ =>
        .bind (.share _) fun _ => .pure n

theorem newSession_confined (lib : ℕ) (granted : Bool) :
    Confined L (Libssh2.newSession lib granted) :=
  .withCopy _ (.bind (.view _) fun _ =>
    .bind (.acquire _ fun n => hC _ (by simp [NoSocket])) fun _ =>
    .bind (.share _) fun _ => .place _)

theorem connectOn_confined (sock : Option ℕ) (hostaddr : Bytes) (port : UInt16) (net : Network) :
    Confined L (Socket.connectOn sock hostaddr port net) :=
  .bind (.issue (hC _ (by simp [NoSocket]))) fun _ => .raiseIf _ _

theorem newChannel_confined (s : ℕ) (granted : Bool) : Confined L (Session.newChannel s granted) :=
  openOn_confined s granted _ _ fun _ _ => hC _ (by simp [NoSocket])

theorem handshake_confined {s : ℕ} (hA : L.overwrites ⟨.session, s⟩) (sock : ℕ) (rc : Int) :
    Confined L (Session.handshake s sock rc) := by
  refine .withCopy _ (.bind (.view _) fun o => ?_)
  rcases o with _ | o
  · exact .pure false
  cases o with
  | session h lib old =>
    exact .bind (.share _) fun _ => .bind (.assign hA _ _) fun _ =>
      callOf_confined ⟨.socket, sock⟩ _ fun _ => hC _ (by simp [NoSocket])
  | _ => exact .pure false

theorem isAuthSupported_confined (needle : Bytes) (s : ℕ) (username : Bytes) (ret : Option Bytes)
    (onNull : Bool) : Confined L (Session.isAuthSupported needle s username ret onNull) := by
  refine .bind (callOf_confined _ ret fun _ => hC _ (by simp [NoSocket])) fun list => ?_
  refine .bind (.issue (hC _ (by simp [NoSocket]))) fun _ => ?_
  cases list with
  | none => exact .pure onNull
  | some list => exact .pure _

theorem passwordAuth_confined (s : ℕ) (username password : Bytes) (rc : Int) :
    Confined L (Session.passwordAuth s username password rc) :=
  callOf_confined _ _ fun _ => hC _ (by simp [NoSocket])

theorem callOn_confined (f : ChannelFunction) (s : ℕ) (ret : Int) :
    Confined L (Channel.callOn f s ret) := callOf_confined _ ret fun _ => hC _ (by simp [NoSocket])

theorem shellOn_confined (terminal : ChannelFunction) (s : ℕ) (pty shell : Int) :
    Confined L (Channel.shellOn terminal s pty shell) :=
  .bind (callOn_confined hC _ _ _) fun _ => .bind (.raiseIf _ _) fun _ =>
    .bind (callOn_confined hC _ _ _) fun _ => .raiseIf _ _

theorem program_confined {o : Operation} (ho : ¬ AsksForDescriptor o) (hA : Within L o) :
    Confined L o.program := by
  cases o with
  | socketCreate | connect | connectToSsh => exact absurd trivial ho
  | create rc => exact .bind (create_confined hC hA rc) fun _ => .pure _
  | resetPtr => exact .bind (resetPtr_confined hA) fun _ => .pure _
  | socketConnect =>
    exact .bind (.bind (.view _) fun _ => connectOn_confined hC _ _ _ _) fun _ => .pure _
  | newSession lib granted => exact .bind (newSession_confined hC lib granted) fun _ => .pure _
  | handshake s sock rc => exact .bind (handshake_confined hC hA sock rc) fun _ => .pure _
  | newChannel | newChannelTcpip | newListener | newListenerEx =>
    exact .bind (openOn_confined _ _ _ _ fun _ _ => hC _ (by simp [NoSocket])) fun _ => .pure _
  | sessionMethod | getSupportedAuthList | passwordAuth | channelMethod =>
    exact .bind (callOf_confined _ _ fun _ => hC _ (by simp [NoSocket])) fun _ => .pure _
  | isPasswordAuthSupported | isPubkeyAuthSupported =>
    exact .bind (isAuthSupported_confined hC _ _ _ _ _) fun _ => .pure _
  | shell | shellEx => exact .bind (shellOn_confined hC _ _ _ _) fun _ => .pure _
  | sshChannel ssh =>
    refine .bind (.view _) fun o => ?_
    rcases o with _ | o
    · exact .pure []
    rcases o with _ | _ | _ | _ | _ | c
    case ssh =>
      cases c with
      | none => exact .pure []
      | some c => exact .bind (.share _) fun _ => .pure _
    all_goals exact .pure []
  | assignChannel ssh c =>
    exact .bind (shareAll_confined _) fun _ => .bind (assignChannel_confined hA c) fun _ => .pure _
  | copyHandle a => exact .bind (.share a) fun _ => .pure _
  | dropHandle a => exact .bind (.drop a) fun _ => .pure _

end Calls

end CloudSsh.Confinement
