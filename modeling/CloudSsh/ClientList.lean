import CloudSsh.X11Clients

/-!
# The list of the X11 clients

`remove_node` frees the client itself only if it is the first of the list. Behind the first it frees
whatever comes next, and farther behind it never ends. Until then the list in memory is at every
moment that of the clients which were opened and not closed, and every pointer to a node is good.
-/
namespace CloudSsh.ClientList
open EnvironmentPrograms InterruptedPrograms BufferedTransfers LinkedNodes X11Clients
open RelayLoop (Byte)

/-! ## The clients of a log -/

abbrev Clients := List (Addr × ChanX11)

def clientsIn (cs : Clients) : Event → Clients
  | .opened a x => cs ++ [(a, x)]
  | .closed a _ => cs.filter fun c => c.1 ≠ a
  | _ => cs

/-- The clients that were opened and not closed, in the order in which they came. -/
def clientsOf (l : List Event) : Clients := l.foldl clientsIn []

theorem clientsOf_concat (l : List Event) (e : Event) :
    clientsOf (l ++ [e]) = clientsIn (clientsOf l) e := by
  simp [clientsOf]

/-- The entries that have nothing to do with the list. -/
def Plain : Event → Prop
  | .opened _ _ | .closed _ _ | .free _ => False
  | _ => True

theorem clientsIn_plain {e : Event} (h : Plain e) (cs : Clients) : clientsIn cs e = cs := by
  cases e with
  | opened a x => exact h.elim
  | closed a sock => exact h.elim
  | _ => rfl

/-- What `remove_node` frees for the client at `a`. There is nothing from the third client on. -/
inductive Frees (a : Addr) : Clients → Option Addr → Prop where
  | first (x : ChanX11) (rest : Clients) : Frees a ((a, x) :: rest) (some a)
  | second (c : Addr × ChanX11) (x : ChanX11) (rest : Clients) :
      Frees a (c :: (a, x) :: rest) (rest.head?.map Prod.fst)

/-- Only clients of the list are closed, and only new ones are opened. Behind the closing of a
client comes what `remove_node` frees for it, and behind that something only if it was the client or
nothing. -/
structure Orderly (before : List Event) (e : Event) : Prop where
  opens : ∀ a x, e = .opened a x → a ∉ (clientsOf before).map Prod.fst
  closes : ∀ a s, e = .closed a s → ∃ c, (a, ⟨c, s⟩) ∈ clientsOf before
  frees : ∀ p, e = .free p → ∃ l a s, before = l ++ [.closed a s]
  removes : ∀ l a s, before = l ++ [.closed a s] → ∃ p, e = .free p ∧ Frees a (clientsOf l) p
  survives : ∀ l a s p, before = l ++ [.closed a s] ++ [.free p] → p = some a ∨ p = none

/-- No removal is under way, and none has gone wrong. -/
structure Calm (l : List Event) : Prop where
  removed : ∀ l' a s, l ≠ l' ++ [.closed a s]
  survived : ∀ l' a s p, l = l' ++ [.closed a s] ++ [.free p] → p = some a ∨ p = none

theorem calm_nil : Calm [] where
  removed _ _ _ h := by simp at h
  survived _ _ _ _ h := by simp at h

variable {l : List Event} {e : Event} {cs more : Clients} {m : Memory} {p : Option Addr} {a : Addr}

theorem calm_concat (hclosed : ∀ a s, e ≠ .closed a s) (hfree : ∀ p, e ≠ .free p) :
    Calm (l ++ [e]) where
  removed _ a s h := hclosed a s (List.cons.inj (List.append_inj' h rfl).2).1
  survived _ _ _ p h := absurd (List.cons.inj (List.append_inj' h rfl).2).1 (hfree p)

theorem calm_freed {s : Int} (hp : p = some a ∨ p = none) :
    Calm (l ++ [.closed a s] ++ [.free p]) where
  removed l' b t h := by
    cases (List.cons.inj (List.append_inj' h rfl).2).1
  survived l' b t q h := by
    obtain ⟨hfront, hlast⟩ := List.append_inj' h rfl
    cases (List.cons.inj hlast).1
    cases (List.cons.inj (List.append_inj' hfront rfl).2).1
    exact hp

theorem Calm.orderly (h : Calm l)
    (hopened : ∀ a x, e = .opened a x → a ∉ (clientsOf l).map Prod.fst)
    (hclosed : ∀ a s, e = .closed a s → ∃ c, (a, ⟨c, s⟩) ∈ clientsOf l) (hfree : ∀ p, e ≠ .free p) :
    Orderly l e where
  opens := hopened
  closes := hclosed
  frees p hp := absurd hp (hfree p)
  removes l' a s hl := absurd hl (h.removed l' a s)
  survives := h.survived

/-! ## The list in memory -/

/-- The list in memory is `cs`, the list of the clients of the log. -/
structure Stands (cs : Clients) (m : Memory) (l : List Event) : Prop where
  calm : Calm l
  clients : clientsOf l = cs
  segment : Segment m.node m.gp_x11_chan cs none

/-- Clients came. -/
def Grown (cs : Clients) (m : Memory) (l : List Event) : Prop := ∃ more, Stands (cs ++ more) m l

theorem Stands.grown (h : Stands cs m l) : Grown cs m l := ⟨[], by rwa [List.append_nil]⟩

theorem Grown.trans (h : Grown (cs ++ more) m l) : Grown cs m l := by
  obtain ⟨more', h⟩ := h
  exact ⟨more ++ more', by rwa [← List.append_assoc]⟩

theorem Stands.plain (h : Stands cs m l) (he : Plain e) : Orderly l e ∧ Stands cs m (l ++ [e]) := by
  have hopened : ∀ a x, e ≠ .opened a x := by
    rintro a x rfl
    exact he
  have hclosed : ∀ a s, e ≠ .closed a s := by
    rintro a s rfl
    exact he
  have hfree : ∀ p, e ≠ .free p := by
    rintro p rfl
    exact he
  constructor
  · exact h.calm.orderly (fun a x hx => absurd hx (hopened a x))
      (fun a s hs => absurd hs (hclosed a s)) hfree
  · exact ⟨calm_concat hclosed hfree, by rw [clientsOf_concat, clientsIn_plain he, h.clients],
      h.segment⟩

/-- The wrong node was freed. -/
def Wrecked (l : List Event) : Prop :=
  ∃ l' a s b, l = l' ++ [.closed a s] ++ [.free (some b)] ∧ b ≠ a

def Left : Exit → List Event → Prop
  | .dangling => Wrecked
  | .outOfMemory => Calm

variable {σ α β : Type} {sys : System σ}

/-- The routine, started with `m`, closes no client and yields a memory in which some
may have come. -/
def Grows (m : Memory) (p : X11 σ α) (f : α → Memory) : Prop :=
  ∀ cs, Meets Orderly (Stands cs m) p (fun a => Grown cs (f a)) Left

namespace Grows

variable {p q : X11 σ α} {f : α → Memory} {k : α → X11 σ β} {g : β → Memory}

theorem pure {a : α} (h : f a = m) : Grows m (pure a : X11 σ α) f := by
  intro cs
  apply Meets.pure
  intro l hl
  rw [h]
  exact hl.grown

theorem bind (hp : Grows m p f) (hk : ∀ a, Grows (f a) (k a) g) : Grows m (p >>= k) g := by
  intro cs
  apply Meets.bind (hp cs)
  intro a
  apply Meets.known
  intro more
  apply (hk a (cs ++ more)).post
  intro b l hl
  exact hl.trans

theorem ite {c : Prop} [Decidable c] (hp : Grows m p f) (hq : Grows m q f) :
    Grows m (if c then p else q) f := fun cs => Meets.ite (fun _ => hp cs) fun _ => hq cs

theorem ask {answer : σ → α × σ} {event : α → Event} (h : ∀ a, Plain (event a)) :
    Grows m (ask answer event) fun _ => m := fun _ =>
  Meets.ask (fun a _ hl => (hl.plain (h a)).1) fun a _ hl => (hl.plain (h a)).2.grown

theorem ask_bind {answer : σ → α × σ} {event : α → Event} (h : ∀ a, Plain (event a))
    (hk : ∀ a, Grows m (k a) g) : Grows m (InterruptedPrograms.ask answer event >>= k) g :=
  bind (ask h) hk

theorem note_bind {k : Unit → X11 σ β} (h : Plain e) (hk : Grows m (k ()) g) :
    Grows m (note e >>= k) g := bind (ask fun _ => h) fun _ => hk

end Grows

theorem deref_meets {Good : List Event → Event → Prop} {P : List Event → Prop}
    {E : Exit → List Event → Prop} {c : ChanX11 × Option Addr} (h : m.node a = some c) :
    Meets Good P (deref m (some a) : X11 σ (ChanX11 × Option Addr)) (fun r l => r = c ∧ P l) E := by
  have hderef : (deref m (some a) : X11 σ (ChanX11 × Option Addr)) = pure c := by simp [deref, h]
  rw [hderef]
  exact Meets.pure fun l hl => ⟨rfl, hl⟩

/-! ## New clients -/

/-- The last node of a list is found. -/
theorem lastNode_meets (n : ℕ) {first : Addr} (hfirst : m.gp_x11_chan = some first) :
    Meets Orderly (Stands cs m) (lastNode n m first : X11 σ Addr)
      (fun a l => (∃ front x, cs = front ++ [(a, x)]) ∧ Stands cs m l) Left := by
  apply Meets.turns (L := fun a l => (∃ front x rest, cs = front ++ (a, x) :: rest) ∧ Stands cs m l)
  · intro l hl
    refine ⟨?_, hl⟩
    have hsegment := hl.segment
    rw [hfirst] at hsegment
    cases hsegment with
    | cons _ _ => exact ⟨[], _, _, rfl⟩
  intro a
  apply Meets.pre (P := fun l => ∃ front x rest r, (cs = front ++ (a, x) :: rest ∧
    m.node a = some (x, r) ∧ Segment m.node r rest none) ∧ Stands cs m l)
  · apply Meets.known
    intro front
    apply Meets.known
    intro x
    apply Meets.known
    intro rest
    apply Meets.given
    rintro r ⟨rfl, hnode, hrest⟩
    apply Meets.bind (deref_meets hnode)
    intro c
    apply Meets.assuming
    rintro rfl
    cases hrest with
    | nil => exact Meets.pure fun l hl => ⟨⟨front, x, rfl⟩, hl⟩
    | cons hnext _ =>
      apply Meets.pure
      intro l hl
      exact ⟨⟨front ++ [(a, x)], _, _, by rw [List.append_assoc, List.singleton_append]⟩, hl⟩
  · rintro l ⟨⟨front, x, rest, rfl⟩, hl⟩
    obtain ⟨-, r, hnode, hrest⟩ := segment_middle_iff.mp hl.segment
    exact ⟨front, x, rest, r, ⟨rfl, hnode, hrest⟩, hl⟩

theorem createNode_meets (x : ChanX11) : Meets Orderly (Stands cs m) (createNode sys m x)
    (fun r l => (m.node r.1 = none ∧
      r.2 = { m with node := Function.update m.node r.1 (some (x, none)) }) ∧
      Calm l ∧ clientsOf l = cs ++ [(r.1, x)] ∧ Segment m.node m.gp_x11_chan cs none) Left := by
  apply Meets.bind (Q := fun _ => Stands cs m)
  · apply Meets.ask
    · exact fun new _ hl => (hl.plain (e := .newNode new.isSome) trivial).1
    · exact fun new _ hl => (hl.plain (e := .newNode new.isSome) trivial).2
  intro new
  cases new with
  | none => exact Meets.leave fun l hl => hl.calm
  | some a =>
    obtain ⟨a, ha⟩ := a
    apply Meets.bind (Q := fun _ l => Calm l ∧ clientsOf l = cs ++ [(a, x)] ∧
      Segment m.node m.gp_x11_chan cs none)
    · apply Meets.note
      · intro l hl
        apply hl.calm.orderly
        · intro b y hb
          cases hb
          rw [hl.clients]
          exact fun hmem => hl.segment.live hmem ha
        · intro b s hb
          cases hb
        · intro p hp
          cases hp
      · intro l hl
        refine ⟨?_, ?_, hl.segment⟩
        · apply calm_concat
          · intro b s hb
            cases hb
          · intro p hp
            cases hp
        · rw [clientsOf_concat, hl.clients]
          rfl
    intro _
    exact Meets.pure fun l hl => ⟨⟨ha, rfl⟩, hl⟩

theorem addClient_grows (n : ℕ) (m : Memory) (x : ChanX11) : Grows m (addClient sys n m x) id := by
  intro cs
  unfold addClient
  cases hfirst : m.gp_x11_chan with
  | none =>
    simp only
    apply Meets.bind (createNode_meets x)
    rintro ⟨a, m'⟩
    dsimp only
    apply Meets.assuming
    rintro ⟨ha, rfl⟩
    apply Meets.pure
    rintro l ⟨hcalm, hclients, hsegment⟩
    refine ⟨[(a, x)], hcalm, hclients, ?_⟩
    rw [hfirst] at hsegment
    rw [hsegment.empty_iff.mp rfl]
    exact .cons (by simp) (.nil none)
  | some first =>
    simp only
    apply Meets.bind (lastNode_meets n hfirst)
    intro last
    apply Meets.pre (P := fun l => ∃ front y, cs = front ++ [(last, y)] ∧ Stands cs m l)
    · apply Meets.known
      intro front
      apply Meets.given
      rintro y rfl
      apply Meets.bind (createNode_meets x)
      rintro ⟨a, m'⟩
      dsimp only
      apply Meets.assuming
      rintro ⟨ha, rfl⟩
      apply Meets.pre (P := fun l => (Segment m.node m.gp_x11_chan (front ++ [(last, y)]) none) ∧
        Calm l ∧ clientsOf l = front ++ [(last, y)] ++ [(a, x)])
      · apply Meets.assuming
        intro hsegment
        obtain ⟨-, r, hlast, hr⟩ := segment_middle_iff.mp hsegment
        have hne : last ≠ a := by
          rintro rfl
          simp [ha] at hlast
        have hstill : (Function.update m.node a (some (x, none))) last = some (y, r) := by
          rw [Function.update_of_ne hne, hlast]
        apply Meets.bind (deref_meets hstill)
        intro c
        apply Meets.assuming
        rintro rfl
        apply Meets.pure
        rintro l ⟨hcalm, hclients⟩
        refine ⟨[(a, x)], hcalm, hclients, ?_⟩
        have hextended := hsegment.extend ha x
        simpa using hextended
      · rintro l ⟨hcalm, hclients, hsegment⟩
        exact ⟨hsegment, hcalm, hclients⟩
    · rintro l ⟨⟨front, y, rfl⟩, hl⟩
      exact ⟨front, y, rfl, hl⟩

theorem connectDisplay_grows (n : ℕ) (m : Memory) (channel : Channel) (display_port : Int) :
    Grows m (connectDisplay sys n m channel display_port) id := by
  apply Grows.ask_bind
  · exact fun _ => trivial
  intro sock
  apply Grows.ite
  · exact Grows.pure rfl
  apply Grows.ask_bind
  · exact fun _ => trivial
  intro rc
  apply Grows.ite
  · exact addClient_grows n m _
  · apply Grows.note_bind
    · trivial
    exact Grows.pure rfl

theorem readDisplay_grows (n : ℕ) (m : Memory) (channel : Channel) (text : List Byte) :
    Grows m (readDisplay sys n m channel text) id := by
  apply Grows.ask_bind
  · exact fun _ => trivial
  intro room
  cases room with
  | none =>
    apply Grows.note_bind
    · trivial
    exact Grows.pure rfl
  | some beyond =>
    apply Grows.note_bind
    · trivial
    exact connectDisplay_grows n m channel _

theorem x11Callback_grows (n : ℕ) (m : Memory) (channel : Channel) :
    Grows m (x11Callback sys n m channel) id := by
  apply Grows.ask_bind
  · exact fun _ => trivial
  intro display
  cases display with
  | none => exact Grows.pure rfl
  | some display =>
    dsimp only
    apply Grows.ite
    · exact readDisplay_grows n m channel _
    · exact Grows.pure rfl

theorem callbacks_grows (n : ℕ) (channels : List Channel) (m : Memory) :
    Grows m (callbacks sys n channels m) id := by
  induction channels generalizing m with
  | nil => exact Grows.pure rfl
  | cons channel channels ih => exact Grows.bind (x11Callback_grows n m channel) ih

theorem library_grows (n : ℕ) (m : Memory) {answer : σ → α × σ} {event : α → Event}
    (h : ∀ a, Plain (event a)) : Grows m (library sys n m answer event) Prod.snd := by
  apply Grows.ask_bind
  · exact fun _ => trivial
  intro channels
  apply Grows.bind (callbacks_grows n channels m)
  intro m
  apply Grows.ask_bind h
  intro r
  exact Grows.pure rfl

theorem channelRead_grows (n : ℕ) (m : Memory) (channel : Channel) (len : ℕ) :
    Grows m (channelRead sys n m channel len) Prod.snd := library_grows n m fun _ => trivial

theorem channelWrite_grows (n : ℕ) (m : Memory) (channel : Channel) (buf : List Byte) :
    Grows m (channelWrite sys n m channel buf) Prod.snd := library_grows n m fun _ => trivial

theorem poll_grows (n : ℕ) (m : Memory) (channel : Channel) :
    Grows m (library sys n m (sys.poll channel) (.poll channel)) Prod.snd :=
  library_grows n m fun _ => trivial

/-! ## Serving one client -/

theorem alloc_grows (m : Memory) (b : Block) : Grows m (alloc sys b) fun _ => m := by
  apply Grows.ask_bind
  · exact fun _ => trivial
  intro room
  exact Grows.pure rfl

theorem pull_grows (n : ℕ) (m : Memory) (channel : Channel) (sock : Int) :
    Grows m (pull sys n m channel sock) id := by
  apply Grows.bind (poll_grows n m channel)
  rintro ⟨rc, m⟩
  dsimp only
  apply Grows.ite
  · apply Grows.bind (channelRead_grows n m channel bufsize)
    rintro ⟨r, m⟩
    apply Grows.ask_bind
    · exact fun _ => trivial
    intro _
    exact Grows.pure rfl
  · exact Grows.pure rfl

theorem push_grows (n : ℕ) (m : Memory) (channel : Channel) (sock : Int) :
    Grows m (push sys n m channel sock) Prod.snd := by
  apply Grows.ask_bind
  · exact fun _ => trivial
  intro rc
  apply Grows.ite
  · apply Grows.ask_bind
    · exact fun _ => trivial
    intro r
    apply Grows.ite
    · apply Grows.bind (channelWrite_grows n m channel r.bytes)
      intro r
      exact Grows.pure rfl
    · apply Grows.note_bind
      · trivial
      exact Grows.pure rfl
  · exact Grows.pure rfl

theorem x11SendReceive_grows (n : ℕ) (m : Memory) (x : ChanX11) :
    Grows m (x11SendReceive sys n m x) Prod.snd := by
  apply Grows.bind (alloc_grows m _)
  intro done
  apply Grows.ite
  · exact Grows.pure rfl
  apply Grows.bind (alloc_grows m _)
  intro done
  apply Grows.ite
  · apply Grows.note_bind
    · trivial
    exact Grows.pure rfl
  apply Grows.bind (pull_grows n m x.chan x.sock)
  intro m
  apply Grows.bind (push_grows n m x.chan x.sock)
  rintro ⟨there, m⟩
  dsimp only
  apply Grows.ite
  · apply Grows.note_bind
    · trivial
    apply Grows.note_bind
    · trivial
    apply Grows.ask_bind
    · exact fun _ => trivial
    intro ret
    exact Grows.pure rfl
  · exact Grows.pure rfl

/-! ## The shell -/

theorem resize_grows (n : ℕ) (i : Locals) : Grows i.m (resize sys n i) Locals.m := by
  apply Grows.ask_bind
  · exact fun _ => trivial
  intro w_size
  apply Grows.ite
  · apply Grows.bind
    · apply library_grows
      exact fun _ => trivial
    intro r
    exact Grows.pure rfl
  · exact Grows.pure rfl

theorem showRemote_grows (n : ℕ) (m : Memory) (channel : Channel) :
    Grows m (showRemote sys n m channel) Prod.snd := by
  apply Grows.bind (poll_grows n m channel)
  rintro ⟨rc, m⟩
  dsimp only
  apply Grows.ite
  · apply Grows.bind (channelRead_grows n m channel pointerSize)
    rintro ⟨r, m⟩
    apply Grows.note_bind
    · trivial
    exact Grows.pure rfl
  · exact Grows.pure rfl

theorem sendTyped_grows (n : ℕ) (m : Memory) (channel : Channel) (buf : List Byte) :
    Grows m (sendTyped sys n m channel buf) id := by
  apply Grows.ask_bind
  · exact fun _ => trivial
  intro rc
  apply Grows.ite
  · apply Grows.ask_bind
    · exact fun _ => trivial
    intro r
    apply Grows.ite
    · apply Grows.bind (channelWrite_grows n m channel _)
      intro r
      exact Grows.pure rfl
    · exact Grows.pure rfl
  · exact Grows.pure rfl

/-! ## Removing a client -/

/-- The loop on the clients has come to `p`. -/
structure Walking (m : Memory) (p : Option Addr) (kept rest : Clients) (l : List Event) : Prop where
  calm : Calm l
  clients : clientsOf l = kept ++ rest
  before : Segment m.node m.gp_x11_chan kept p
  behind : Segment m.node p rest none

theorem Walking.stands {kept rest : Clients} (h : Walking m p kept rest l) :
    Stands (kept ++ rest) m l :=
  ⟨h.calm, h.clients, segment_append_iff.mpr ⟨p, h.before, h.behind⟩⟩

/-- It has come to a node that was freed in place of the one before it. -/
def Lost (m : Memory) (p : Option Addr) (l : List Event) : Prop :=
  ∃ l' a s b, l = l' ++ [.closed a s] ++ [.free (some b)] ∧ b ≠ a ∧ p = some b ∧ m.node b = none

def OnTheWay (m : Memory) (p : Option Addr) (l : List Event) : Prop :=
  (∃ kept rest, Walking m p kept rest l) ∨ Lost m p l

/-- The client at `a` was just closed. -/
structure Closing (a : Addr) (cs : Clients) (l : List Event) : Prop where
  log : ∃ l' s, l = l' ++ [.closed a s] ∧ clientsOf l' = cs

theorem Closing.orderly (h : Closing a cs l) (hp : Frees a cs p) : Orderly l (.free p) := by
  obtain ⟨l', s, rfl, rfl⟩ := h.log
  constructor
  · intro b x hb
    cases hb
  · intro b t hb
    cases hb
  · intro q hq
    exact ⟨l', a, s, rfl⟩
  · intro l'' b t hl
    obtain ⟨rfl, hb⟩ := List.append_inj' hl rfl
    cases (List.cons.inj hb).1
    exact ⟨p, rfl, hp⟩
  · intro l'' b t q hl
    cases (List.cons.inj (List.append_inj' hl rfl).2).1

theorem Closing.freed (h : Closing a cs l) (hp : p = some a ∨ p = none) :
    Calm (l ++ [.free p]) := by
  obtain ⟨l', s, rfl, -⟩ := h.log
  exact calm_freed hp

theorem Closing.clients (h : Closing a cs l) (e : Option Addr) :
    clientsOf (l ++ [.free e]) = cs.filter fun c => c.1 ≠ a := by
  obtain ⟨l', s, rfl, rfl⟩ := h.log
  rw [clientsOf_concat, clientsOf_concat]
  rfl

theorem filter_remove {front back : Clients} {x : ChanX11}
    (h : ((front ++ (a, x) :: back).map Prod.fst).Nodup) :
    (front ++ (a, x) :: back).filter (fun c => c.1 ≠ a) = front ++ back := by
  rw [List.map_append, List.map_cons, List.nodup_append, List.nodup_cons] at h
  obtain ⟨-, ⟨hback, -⟩, hfront⟩ := h
  have hkeeps : ∀ cs : Clients, a ∉ cs.map Prod.fst → cs.filter (fun c => c.1 ≠ a) = cs := by
    intro cs hcs
    rw [List.filter_eq_self]
    intro c hc
    apply decide_eq_true
    rintro rfl
    exact hcs (List.mem_map_of_mem hc)
  rw [List.filter_append, List.filter_cons_of_neg (by simp), hkeeps back hback, hkeeps front]
  intro hmem
  exact hfront a hmem a List.mem_cons_self rfl

section Remove

variable {kept rest : Clients} {x : ChanX11}

/-- The first client is removed. -/
theorem removeFirst_meets (n : ℕ) (hfirst : m.gp_x11_chan = some a) (hnode : m.node a = some (x, p))
    (hrest : Segment m.node p rest none) :
    Meets Orderly (Closing a ((a, x) :: rest)) (removeNode n m a : X11 σ Memory)
      (fun m' => OnTheWay m' p) Left := by
  have hnodup : (([] ++ (a, x) :: rest).map Prod.fst).Nodup := (Segment.cons hnode hrest).nodup
  obtain ⟨gp, node⟩ := m
  dsimp only at hfirst hnode hrest
  subst hfirst
  rw [removeNode, if_pos rfl]
  apply Meets.bind (deref_meets hnode)
  intro first
  apply Meets.assuming
  rintro rfl
  apply Meets.bind (deref_meets hnode)
  intro _
  apply Meets.assuming
  intro _
  apply Meets.bind (Q := fun _ l => Calm l ∧ clientsOf l = rest)
  · apply Meets.note
    · exact fun l hl => hl.orderly (.first x rest)
    · exact fun l hl => ⟨hl.freed (.inl rfl), (hl.clients _).trans (filter_remove hnodup)⟩
  intro _
  apply Meets.pure
  rintro l ⟨hcalm, hclients⟩
  rw [List.nil_append, List.map_cons, List.nodup_cons] at hnodup
  exact .inl ⟨[], rest, hcalm, hclients, .nil p, hrest.free hnodup.1⟩

/-- What `remove_node` does about the second client. -/
theorem removeSecond_meets {c : Addr × ChanX11} (hc : m.node c.1 = some (c.2, some a))
    (hfirst : m.gp_x11_chan = some c.1) (hnode : m.node a = some (x, p))
    (hrest : Segment m.node p rest none) :
    Meets Orderly (Closing a (c :: (a, x) :: rest))
      (freeNode { m with node := Function.update m.node c.1 (some (c.2, p)) } p : X11 σ Memory)
      (fun m' => OnTheWay m' p) Left := by
  have hwhole : Segment m.node (some c.1) ([c] ++ (a, x) :: rest) none :=
    .cons hc (.cons hnode hrest)
  have hnodup := hwhole.nodup
  cases hrest with
  | nil =>
    apply Meets.bind (Q := fun _ l => Calm l ∧ clientsOf l = [c])
    · apply Meets.note
      · exact fun l hl => hl.orderly (.second c x [])
      · exact fun l hl => ⟨hl.freed (.inr rfl), (hl.clients _).trans (filter_remove hnodup)⟩
    intro _
    apply Meets.pure
    rintro l ⟨hcalm, hclients⟩
    refine .inl ⟨[c], [], hcalm, hclients, ?_, .nil none⟩
    rw [hfirst]
    exact .cons (by simp) (.nil none)
  | @cons b y r _ rest hb hrest =>
    have htail := (Segment.cons hnode (.cons hb hrest)).nodup
    rw [List.singleton_append, List.map_cons, List.nodup_cons] at hnodup
    rw [List.map_cons, List.nodup_cons] at htail
    have hbc : b ≠ c.1 := by
      intro h
      apply hnodup.1
      simp [← h]
    have hba : b ≠ a := by
      intro h
      apply htail.1
      simp [← h]
    have hstill : Function.update m.node c.1 (some (c.2, some b)) b = some (y, r) := by
      rw [Function.update_of_ne hbc, hb]
    apply Meets.bind (deref_meets hstill)
    intro _
    apply Meets.assuming
    intro _
    apply Meets.bind (Q := fun _ l => ∃ l' s, l = l' ++ [.closed a s] ++ [.free (some b)])
    · apply Meets.note
      · exact fun l hl => hl.orderly (.second c x ((b, y) :: rest))
      · intro l hl
        obtain ⟨l', s, rfl, -⟩ := hl.log
        exact ⟨l', s, rfl⟩
    intro _
    apply Meets.pure
    rintro l ⟨l', s, rfl⟩
    exact .inr ⟨l', a, s, b, rfl, hba, rfl, by simp⟩

theorem removeNode_meets (n : ℕ) (hbefore : Segment m.node m.gp_x11_chan kept (some a))
    (hnode : m.node a = some (x, p)) (hrest : Segment m.node p rest none) :
    Meets Orderly (Closing a (kept ++ (a, x) :: rest)) (removeNode n m a : X11 σ Memory)
      (fun m' => OnTheWay m' p) Left := by
  have hwhole := segment_middle_iff.mpr ⟨hbefore, p, hnode, hrest⟩
  have hnodup := hwhole.nodup
  cases kept with
  | nil => exact removeFirst_meets n (segment_nil_iff.mp hbefore) hnode hrest
  | cons c kept =>
    rw [List.map_append, List.map_cons, List.map_cons, List.nodup_append] at hnodup
    obtain ⟨-, -, hdisjoint⟩ := hnodup
    have hca : c.1 ≠ a := by
      intro h
      exact hdisjoint c.1 (by simp) a (by simp) h
    obtain ⟨hfirst, next, hc, hkept⟩ := segment_cons_iff.mp hbefore
    have hne : m.gp_x11_chan ≠ some a := by
      rw [hfirst]
      intro h
      exact hca (Option.some.inj h)
    rw [removeNode, if_neg hne]
    apply Meets.turns (L := fun _ => Closing a (c :: kept ++ (a, x) :: rest))
    · exact fun _ h => h
    intro _
    rw [hfirst]
    apply Meets.bind (deref_meets hc)
    intro current
    apply Meets.assuming
    rintro rfl
    cases hkept with
    | nil =>
      simp only [if_true]
      apply Meets.bind (deref_meets hnode)
      intro after
      apply Meets.assuming
      rintro rfl
      apply Meets.bind
      · have hsecond := removeSecond_meets (σ := σ) hc hfirst hnode hrest
        rw [hfirst] at hsecond
        exact hsecond
      intro m'
      exact Meets.pure fun l hl => hl
    | @cons d y r _ kept hd hkept =>
      have hda : d ≠ a := by
        intro h
        exact hdisjoint d (by simp) a (by simp) h
      simp only [if_neg hda]
      exact Meets.pure fun l hl => hl

/-- Where the list in memory has a client, its node and the pointers around it are good. -/
theorem at_client {q : X11 σ α} {Q : α → List Event → Prop}
    (h : ∀ r, Segment m.node m.gp_x11_chan kept (some a) → m.node a = some (x, r) →
      Segment m.node r rest none → Meets Orderly (Stands (kept ++ (a, x) :: rest) m) q Q Left) :
    Meets Orderly (Stands (kept ++ (a, x) :: rest) m) q Q Left := by
  intro s l hl hp
  obtain ⟨hbefore, r, hnode, hrest⟩ := segment_middle_iff.mp hp.segment
  exact h r hbefore hnode hrest s l hl hp

/-! ## The loop on the clients -/

theorem serve_present (n : ℕ) : Meets Orderly (Stands (kept ++ (a, x) :: rest) m) (serve sys n m a)
    (fun r => OnTheWay r.1 r.2) Left := by
  apply at_client
  intro r _ hnode _
  apply Meets.bind (deref_meets hnode)
  intro current
  apply Meets.assuming
  rintro rfl
  apply Meets.bind (x11SendReceive_grows n m x _)
  rintro ⟨rc, m'⟩
  dsimp only
  apply Meets.known
  intro more
  rw [List.append_assoc, List.cons_append]
  apply at_client
  intro r' hbefore hnode hrest
  apply Meets.bind (deref_meets hnode)
  intro current
  apply Meets.assuming
  rintro rfl
  apply Meets.ite
  · intro _
    apply Meets.bind (Q := fun _ => Closing a (kept ++ (a, x) :: (rest ++ more)))
    · apply Meets.note
      · intro l hl
        apply hl.calm.orderly
        · intro b y hb
          cases hb
        · intro b t hb
          cases hb
          exact ⟨x.chan, by simp [hl.clients]⟩
        · intro p hp
          cases hp
      · exact fun l hl => ⟨l, x.sock, rfl, hl.clients⟩
    intro _
    apply Meets.bind (removeNode_meets n hbefore hnode hrest)
    intro m''
    exact Meets.pure fun l hl => hl
  · intro _
    apply Meets.pure
    intro l hl
    refine .inl ⟨kept ++ [(a, x)], rest ++ more, hl.calm, ?_, ?_, hrest⟩
    · rw [hl.clients, List.append_assoc, List.singleton_append]
    · exact segment_middle_iff.mpr ⟨hbefore, r', hnode, .nil r'⟩

theorem serve_meets (n : ℕ) : Meets Orderly (OnTheWay m (some a)) (serve sys n m a)
    (fun r => OnTheWay r.1 r.2) Left := by
  apply Meets.either
  · apply Meets.known
    intro kept
    apply Meets.known
    intro rest
    apply Meets.pre (P := fun l => ∃ x rest', Stands (kept ++ (a, x) :: rest') m l)
    · apply Meets.known
      intro x
      apply Meets.known
      intro rest'
      exact serve_present n
    · intro l hl
      have hstands := hl.stands
      cases hl.behind with
      | cons _ _ => exact ⟨_, _, hstands⟩
  · apply Meets.pre (P := fun l => m.node a = none ∧ Wrecked l)
    · apply Meets.assuming
      intro hnode
      apply Meets.bind (Q := fun _ _ => False)
      · have hderef : (deref m (some a) : X11 σ (ChanX11 × Option Addr)) = leave .dangling := by
          simp [deref, hnode]
        rw [hderef]
        exact Meets.leave fun l hl => hl
      · intro current s l _ hl
        exact hl.elim
    · rintro l ⟨l', b, s, b', rfl, hne, hb, hnode⟩
      cases hb
      exact ⟨hnode, l', b, s, a, rfl, hne⟩

theorem serveClients_grows (n : ℕ) : Meets Orderly (Stands kept m) (serveClients sys n m)
    (fun m' l => ∃ cs, Stands cs m' l) Left := by
  apply Meets.turns (L := fun i => OnTheWay i.1 i.2)
  · intro l hl
    exact .inl ⟨[], kept, hl.calm, hl.clients, .nil _, hl.segment⟩
  rintro ⟨m, _ | a⟩
  · apply Meets.pure
    rintro l (⟨kept, rest, hl⟩ | ⟨l', a, s, b, -, -, hb, -⟩)
    · exact ⟨_, hl.stands⟩
    · cases hb
  · apply Meets.bind (serve_meets n)
    intro next
    exact Meets.pure fun l hl => hl

end Remove

/-! ## The main loop -/

def Listed (m : Memory) (l : List Event) : Prop := ∃ cs, Stands cs m l

theorem Grows.listed {q : X11 σ α} {f : α → Memory} (h : Grows m q f) :
    Meets Orderly (Listed m) q (fun a => Listed (f a)) Left := by
  apply Meets.known
  intro cs
  apply (h cs).post
  rintro a l ⟨more, hl⟩
  exact ⟨_, hl⟩

theorem note_listed (h : Plain e) :
    Meets Orderly (Listed m) (note e : X11 σ Unit) (fun _ => Listed m) Left :=
  Grows.listed (Grows.ask fun _ => h)

theorem mainTurn_meets (n : ℕ) (channel : Channel) (i : Locals) : Meets Orderly (Listed i.m)
    (mainTurn sys n channel i) (fun r l => r.elim (fun j => Listed j.m l) (Listed · l)) Left := by
  apply Meets.bind (resize_grows n i).listed
  intro i
  apply Meets.bind (alloc_grows i.m _).listed
  intro done
  apply Meets.ite
  · exact fun _ => Meets.pure fun l hl => hl
  intro _
  apply Meets.bind (alloc_grows i.m _).listed
  intro done
  apply Meets.ite
  · intro _
    apply Meets.bind
    · apply note_listed
      trivial
    intro _
    exact Meets.pure fun l hl => hl
  intro _
  apply Meets.bind (showRemote_grows n i.m channel).listed
  rintro ⟨buf, m⟩
  apply Meets.bind (Q := fun m => Listed m)
  · apply Meets.known
    intro cs
    exact serveClients_grows n
  intro m
  apply Meets.bind (sendTyped_grows n m channel buf).listed
  intro m
  apply Meets.bind
  · apply note_listed
    trivial
  intro _
  apply Meets.bind
  · apply note_listed
    trivial
  intro _
  apply Meets.bind (Q := fun _ => Listed m)
  · apply (Grows.ask _).listed
    exact fun _ => trivial
  intro ret
  apply Meets.ite
  · exact fun _ => Meets.pure fun l hl => hl
  · exact fun _ => Meets.pure fun l hl => hl

theorem mainLoop_meets (n : ℕ) (channel : Channel) :
    Meets Orderly (fun l => l = []) (mainLoop sys n channel) Listed Left := by
  apply Meets.turns (L := fun i => Listed i.m)
  · rintro l rfl
    exact ⟨[], calm_nil, rfl, .nil none⟩
  · exact mainTurn_meets n channel

/-- The first `k` turns of the main loop. -/
abbrev mainTurns (sys : System σ) (k n : ℕ) (channel : Channel) : X11 σ (Locals ⊕ Memory) :=
  firstTurns (mainTurn sys n channel) k start

theorem mainTurns_meets (k n : ℕ) (channel : Channel) :
    Meets Orderly (fun l => l = []) (mainTurns sys k n channel)
      (fun r l => r.elim (fun i => Listed i.m l) (Listed · l)) Left := by
  apply Meets.pre (Meets.firstTurns (L := fun i => Listed i.m) (mainTurn_meets n channel) k start)
  rintro l rfl
  exact ⟨[], calm_nil, rfl, .nil none⟩

theorem mainTurns_log {k n : ℕ} (hk : k ≤ n) (channel : Channel) (s : σ) :
    (mainTurns sys k n channel s).log <+: (mainLoop sys n channel s).log := by
  obtain ⟨more, hmore⟩ := Nat.exists_eq_add_of_le hk
  have hpiece : (mainTurns sys k n channel s).log <+:
      (turns (mainTurn sys n channel) (k + more) start s).log :=
    firstTurns_log more k start s
  rwa [← hmore] at hpiece

end CloudSsh.ClientList
