import CloudSsh.RemoteToTerminal

/-!
# When the relay loop ends

The channel is a queue of ordinary and extended data packets with an EOF mark behind
the last one. A read drains ordinary packets only, while the end-of-file test waits
for both kinds to be gone.
-/
namespace CloudSsh.RelayTermination
open EnvironmentPrograms RelayLoop RemoteToTerminal

inductive Stream where
  | ordinary | extended
  deriving DecidableEq

structure Packet where
  stream : Stream
  data : List Byte
  deriving DecidableEq

/-- What the peer sends over the life of the channel, when it arrives, and what the rest of the
system answers. `arrives t` counts the items, packets and the EOF mark behind the last of them,
that have arrived between the `t`-th call and the next; all of them arrive in the end. -/
structure Delivery where
  packets : List Packet
  arrives : ℕ → ℕ
  complete : ∃ t, packets.length < ((List.range t).map arrives).sum
  /-- The result of a read that finds no ordinary data. -/
  idle : ℕ → {code : Int // code ≤ 0}
  beyond : ℕ → List Byte
  select : ℕ → Int
  getchar : ℕ → Option Byte
  write : ℕ → WriteResult

/-- The packets that have arrived and are not consumed, and the number of calls made so far. -/
structure Remote where
  queue : List Packet
  calls : ℕ

/-- Read up to `size` bytes from the ordinary packets, oldest first. A packet that is used up
leaves the queue; extended packets stay where they are. -/
def takeOrdinary : ℕ → List Packet → List Byte × List Packet
  | _, [] => ([], [])
  | size, p :: queue => match p.stream with
    | .extended =>
      let r := takeOrdinary size queue
      (r.1, p :: r.2)
    | .ordinary =>
      if 0 < size ∧ p.data.length ≤ size then
        let r := takeOrdinary (size - p.data.length) queue
        (p.data ++ r.1, r.2)
      else
        (p.data.take size, { p with data := p.data.drop size } :: queue)

/-- The ordinary bytes of a sequence of packets. -/
def ordinaryBytes (packets : List Packet) : List Byte :=
  packets.flatMap fun p => if p.stream = .ordinary then p.data else []

theorem takeOrdinary_length (size : ℕ) (queue : List Packet) :
    (takeOrdinary size queue).1.length ≤ size := by
  induction queue generalizing size with
  | nil => simp [takeOrdinary]
  | cons p queue ih =>
    cases hs : p.stream with
    | extended => simpa [takeOrdinary, hs] using ih size
    | ordinary =>
      by_cases hf : 0 < size ∧ p.data.length ≤ size
      · have := ih (size - p.data.length)
        simp [takeOrdinary, hs, hf]
        omega
      · simp [takeOrdinary, hs, hf]

/-- A read moves ordinary bytes from the front of the queue, in order. -/
theorem takeOrdinary_bytes (size : ℕ) (queue : List Packet) :
    (takeOrdinary size queue).1 ++ ordinaryBytes (takeOrdinary size queue).2 =
      ordinaryBytes queue := by
  induction queue generalizing size with
  | nil => simp [takeOrdinary, ordinaryBytes]
  | cons p queue ih =>
    cases hs : p.stream with
    | extended => simpa [takeOrdinary, ordinaryBytes, hs] using ih size
    | ordinary =>
      by_cases hf : 0 < size ∧ p.data.length ≤ size
      · simpa [takeOrdinary, ordinaryBytes, hs, hf] using ih (size - p.data.length)
      · simp [takeOrdinary, ordinaryBytes, hs, hf, ← List.append_assoc]

/-- A read leaves the extended packets alone. -/
theorem takeOrdinary_extended (size : ℕ) (queue : List Packet) :
    (takeOrdinary size queue).2.filter (·.stream = .extended) =
      queue.filter (·.stream = .extended) := by
  induction queue generalizing size with
  | nil => simp [takeOrdinary]
  | cons p queue ih =>
    cases hs : p.stream with
    | extended => simpa [takeOrdinary, hs] using ih size
    | ordinary =>
      by_cases hf : 0 < size ∧ p.data.length ≤ size
      · simpa [takeOrdinary, hs, hf] using ih (size - p.data.length)
      · simp [takeOrdinary, hs, hf]

/-- How much there is to read: a byte counts, and so does the packet around it. -/
def weight (queue : List Packet) : ℕ := (queue.map fun p => p.data.length + 1).sum

theorem weight_takeOrdinary (size : ℕ) (queue : List Packet) :
    weight (takeOrdinary size queue).2 ≤ weight queue := by
  induction queue generalizing size with
  | nil => simp [takeOrdinary]
  | cons p queue ih =>
    cases hs : p.stream with
    | extended => simpa [takeOrdinary, weight, hs] using ih size
    | ordinary =>
      by_cases hf : 0 < size ∧ p.data.length ≤ size
      · have := ih (size - p.data.length)
        simp [takeOrdinary, weight, hs, hf] at this ⊢
        omega
      · simp [takeOrdinary, weight, hs, hf]

/-- A read makes progress on a queue that starts with an ordinary packet. -/
theorem weight_takeOrdinary_lt {size : ℕ} (hsize : 0 < size) {p : Packet}
    (hp : p.stream = .ordinary) (queue : List Packet) :
    weight (takeOrdinary size (p :: queue)).2 < weight (p :: queue) := by
  by_cases hf : p.data.length ≤ size
  · have := weight_takeOrdinary (size - p.data.length) queue
    simp [takeOrdinary, weight, hp, hsize, hf] at this ⊢
    omega
  · simp [takeOrdinary, weight, hp, hf]
    omega

namespace Delivery

/-- The number of items that have arrived before the `t`-th call. -/
def arrivedBy (d : Delivery) (t : ℕ) : ℕ := ((List.range t).map d.arrives).sum

theorem arrivedBy_succ (d : Delivery) (t : ℕ) :
    d.arrivedBy (t + 1) = d.arrivedBy t + d.arrives t := by
  simp [arrivedBy, List.range_succ]

theorem arrivedBy_mono (d : Delivery) : Monotone d.arrivedBy :=
  monotone_nat_of_le_succ fun t => by
    rw [arrivedBy_succ]
    exact Nat.le_add_right _ _

/-- The packets that are still on their way before the `t`-th call. -/
def incoming (d : Delivery) (t : ℕ) : List Packet := d.packets.drop (d.arrivedBy t)

/-- EOF has arrived before the `t`-th call. -/
def Eof (d : Delivery) (t : ℕ) : Prop := d.packets.length < d.arrivedBy t

instance (d : Delivery) (t : ℕ) : Decidable (d.Eof t) := inferInstanceAs (Decidable (_ < _))

theorem Eof.mono {d : Delivery} {t u : ℕ} (h : d.Eof t) (htu : t ≤ u) : d.Eof u :=
  h.trans_le (d.arrivedBy_mono htu)

theorem Eof.incoming {d : Delivery} {t : ℕ} (h : d.Eof t) : d.incoming t = [] :=
  List.drop_eq_nil_of_le h.le

end Delivery

namespace Remote

/-- A call returns: what has arrived meanwhile joins the queue. -/
def settle (d : Delivery) (r : Remote) : Remote where
  queue := r.queue ++ (d.incoming r.calls).take (d.arrives r.calls)
  calls := r.calls + 1

/-- All packets that are not consumed yet. -/
def pending (d : Delivery) (r : Remote) : List Packet := r.queue ++ d.incoming r.calls

/-- An arrival changes nothing about what is pending. -/
@[simp] theorem settle_pending (d : Delivery) (r : Remote) :
    (r.settle d).pending d = r.pending d := by
  simp only [pending, settle, Delivery.incoming, d.arrivedBy_succ, List.append_assoc]
  rw [← List.drop_drop, List.take_append_drop]

/-- The queue behind a read, before anything else arrives. -/
def drained (r : Remote) : Remote := { r with queue := (takeOrdinary obufSize r.queue).2 }

end Remote

/-- The loop's system when the peer keeps to a delivery. -/
def system (d : Delivery) : System Remote where
  isEof r := (if d.Eof r.calls ∧ r.queue = [] then 1 else 0, r.settle d)
  read size r :=
    let taken := takeOrdinary size r.queue
    (if h : 0 < taken.1.length then .stored taken.1 h (takeOrdinary_length size r.queue)
      else .failed (d.idle r.calls).1 (d.idle r.calls).2,
      { r with queue := taken.2 }.settle d)
  beyond r := d.beyond r.calls
  select r := (d.select r.calls, r.settle d)
  getchar r := (d.getchar r.calls, r.settle d)
  write _ r := (d.write r.calls, r.settle d)
  usleep r := r.settle d

def start : Remote := ⟨[], 0⟩

/-! ## What the two halves of the body do to the channel -/

variable {d : Delivery}

@[simp] theorem settle_iterate_pending (k : ℕ) (r : Remote) :
    ((Remote.settle d)^[k] r).pending d = r.pending d := by
  induction k generalizing r with
  | zero => rfl
  | succ k ih => rw [Function.iterate_succ_apply, ih, Remote.settle_pending]

theorem settle_iterate_calls (k : ℕ) (r : Remote) :
    ((Remote.settle d)^[k] r).calls = r.calls + k := by
  induction k generalizing r with
  | zero => rfl
  | succ k ih =>
    rw [Function.iterate_succ_apply, ih]
    simp only [Remote.settle]
    omega

/-- The remote half reads once, and delivers what it read. -/
theorem readRemote_effect (r : Remote) :
    (readRemote (system d) r).env = r.drained.settle d ∧
      (readRemote (system d) r).log.flatMap delivered = (takeOrdinary obufSize r.queue).1 := by
  have hread : ((system d).read obufSize r).2 = r.drained.settle d := rfl
  rcases readRemote_cases (system d) r with ⟨bytes, _, _, r₁, hr, ho⟩ | ⟨code, _, r₁, hr, ho⟩ <;>
    rw [ho] <;> rw [hr] at hread <;> refine ⟨hread, ?_⟩ <;>
    have hres := congrArg Prod.fst hr <;> simp only [system] at hres <;> split at hres
  · next h =>
    injection hres with hb
    simp [delivered, hb]
  · cases hres
  · cases hres
  · next h =>
    have hnil : (takeOrdinary obufSize r.queue).1 = [] :=
      List.eq_nil_of_length_eq_zero (Nat.eq_zero_of_not_pos h)
    split <;> simp [delivered, hnil]

/-- The keyboard half only lets time pass. -/
theorem sendInput_effect (r : Remote) :
    ∃ k, (sendInput (system d) r).env = (Remote.settle d)^[k] r ∧
      (sendInput (system d) r).log.flatMap delivered = [] := by
  rcases sendInput_cases (system d) r with ⟨r₁, h, ho⟩ | ⟨_, r₁, _, r₂, h, _, h', _, ho⟩ |
    ⟨_, r₁, _, r₂, st, r₃, h, _, h', _, h'', ho⟩ <;> rw [ho]
  · obtain ⟨-, rfl⟩ := Prod.mk.inj h
    exact ⟨1, rfl, by simp [delivered]⟩
  · obtain ⟨-, rfl⟩ := Prod.mk.inj h
    obtain ⟨-, rfl⟩ := Prod.mk.inj h'
    exact ⟨2, rfl, by simp [delivered]⟩
  · obtain ⟨-, rfl⟩ := Prod.mk.inj h
    obtain ⟨-, rfl⟩ := Prod.mk.inj h'
    obtain ⟨-, rfl⟩ := Prod.mk.inj h''
    refine ⟨3, rfl, ?_⟩
    split <;> simp [delivered]

/-- One turn is one read, and time passes around it. -/
theorem turn_effect (r : Remote) :
    ∃ k, turn (loopTest (system d)) (loopBody (system d)) r =
      (Remote.settle d)^[k + 1] ((r.settle d).drained) := by
  obtain ⟨k, hk, -⟩ := sendInput_effect (d := d) (((r.settle d).drained).settle d)
  refine ⟨k + 1, ?_⟩
  have hread := (readRemote_effect (d := d) (r.settle d)).1
  simp only [turn, loopTest_apply, loopBody, bind_apply, call_apply]
  change (sendInput (system d) (readRemote (system d) (r.settle d)).env).env.settle d = _
  rw [hread, hk, Function.iterate_succ_apply, Function.iterate_succ_apply']

/-! ## The account of the packets -/

/-- What was delivered and what is pending make up what the peer sends, and no extended packet
ever goes away. -/
structure Tracks (d : Delivery) (r : Remote) (log : List (Entry Remote)) : Prop where
  ordinary : log.flatMap delivered ++ ordinaryBytes (r.pending d) = ordinaryBytes d.packets
  extended : (r.pending d).filter (·.stream = .extended) =
    d.packets.filter (·.stream = .extended)

theorem Tracks.silent {r r' : Remote} {log rest : List (Entry Remote)} (h : Tracks d r log)
    (hr : r'.pending d = r.pending d) (hrest : rest.flatMap delivered = []) :
    Tracks d r' (log ++ rest) :=
  ⟨by rw [List.flatMap_append, hrest, List.append_nil, hr]; exact h.ordinary, by
    rw [hr]; exact h.extended⟩

theorem tracks_readRemote : Keeps (Tracks d) (readRemote (system d)) := by
  intro r log h
  obtain ⟨henv, hlog⟩ := readRemote_effect (d := d) r
  rw [henv]
  constructor
  · rw [List.flatMap_append, hlog, Remote.settle_pending, ← h.ordinary]
    simp only [Remote.pending, Remote.drained, ordinaryBytes, List.flatMap_append]
    have hb := takeOrdinary_bytes obufSize r.queue
    simp only [ordinaryBytes] at hb
    rw [← hb]
    simp
  · rw [Remote.settle_pending, ← h.extended]
    simp only [Remote.pending, Remote.drained, List.filter_append, takeOrdinary_extended]

theorem tracks_relayLoop (n : ℕ) : Keeps (Tracks d) (relayLoop (system d) n) := by
  refine relayLoop_keeps (fun r log h => h.silent (Remote.settle_pending d r) rfl)
    tracks_readRemote (fun r log h => ?_)
      (fun r log h => h.silent (Remote.settle_pending d r) rfl) n
  obtain ⟨k, henv, hlog⟩ := sendInput_effect (d := d) r
  exact h.silent (by rw [henv, settle_iterate_pending]) hlog

theorem tracks_start (d : Delivery) : Tracks d start [] := by
  have hp : start.pending d = d.packets := rfl
  exact ⟨by rw [hp]; rfl, by rw [hp]⟩

/-! ## The end of the loop -/

theorem loopTest_false_iff (r : Remote) :
    (loopTest (system d) r).value = false ↔ d.Eof r.calls ∧ r.queue = [] := by
  by_cases h : d.Eof r.calls ∧ r.queue = [] <;> simp [system, h]

/-- Once the loop has ended nothing is pending. -/
theorem pending_of_ended {n : ℕ} (h : (relayLoop (system d) n start).value = true) :
    (relayLoop (system d) n start).env.pending d = [] := by
  obtain ⟨r, hr, henv⟩ := whileLoop_exit h
  obtain ⟨heof, hq⟩ := (loopTest_false_iff r).mp hr
  rw [relayLoop, henv]
  change (r.settle d).pending d = []
  rw [Remote.settle_pending, Remote.pending, hq, heof.incoming, List.append_nil]

/-- Work left before the time `t` at which EOF has arrived, and after it. -/
def remaining (d : Delivery) (t : ℕ) (r : Remote) : ℕ := (t - r.calls) + weight (r.pending d)

theorem weight_append (a b : List Packet) : weight (a ++ b) = weight a + weight b := by
  simp [weight]

theorem weight_drained_le (r : Remote) : weight (r.drained.pending d) ≤ weight (r.pending d) := by
  have := weight_takeOrdinary obufSize r.queue
  simp only [Remote.pending, Remote.drained, weight_append]
  omega

theorem weight_drained_lt {r : Remote} (hq : r.queue ≠ [])
    (ho : ∀ p ∈ r.queue, p.stream = .ordinary) :
    weight (r.drained.pending d) < weight (r.pending d) := by
  obtain ⟨p, queue, he⟩ := List.exists_cons_of_ne_nil hq
  have hpos : 0 < obufSize := by decide
  have := weight_takeOrdinary_lt hpos (ho p (by simp [he])) queue
  simp only [Remote.pending, Remote.drained, weight_append, he]
  omega

/-- With ordinary packets only, every turn leaves less to be done. -/
theorem remaining_turn_lt {t : ℕ} (ht : d.Eof t) {r : Remote}
    (ho : ∀ p ∈ r.pending d, p.stream = .ordinary)
    (hv : (loopTest (system d) r).value = true) :
    remaining d t (turn (loopTest (system d)) (loopBody (system d)) r) < remaining d t r := by
  obtain ⟨k, hk⟩ := turn_effect (d := d) r
  have hcalls : ((r.settle d).drained).calls = r.calls + 1 := rfl
  have hle := weight_drained_le (d := d) (r.settle d)
  simp only [remaining, hk, settle_iterate_pending, settle_iterate_calls, hcalls]
  rw [Remote.settle_pending] at hle
  by_cases hlt : r.calls < t
  · omega
  · -- EOF is there, so the test failed because of packets that the read then takes
    have hq : r.queue ≠ [] := fun hq => by
      have hend := (loopTest_false_iff r).mpr ⟨ht.mono (by omega), hq⟩
      exact absurd (hend.symm.trans hv) Bool.false_ne_true
    have hsettled : (r.settle d).queue ≠ [] := by simp [Remote.settle, hq]
    have hlt' := weight_drained_lt (d := d) hsettled fun p hp =>
      ho p (by rw [← Remote.settle_pending]; exact List.mem_append_left _ hp)
    rw [Remote.settle_pending] at hlt'
    omega

private theorem ordinary_iff_filter (packets : List Packet) :
    (∀ p ∈ packets, p.stream = .ordinary) ↔ packets.filter (·.stream = .extended) = [] := by
  simp only [List.filter_eq_nil_iff, decide_eq_true_eq]
  refine forall₂_congr fun p _ => ?_
  cases p.stream <;> simp

theorem relayLoop_ends (h : ∀ p ∈ d.packets, p.stream = .ordinary) :
    ∃ n, (relayLoop (system d) n start).value = true := by
  obtain ⟨t, ht⟩ := d.complete
  refine whileLoop_ends (I := fun r => ∀ p ∈ r.pending d, p.stream = .ordinary) (remaining d t)
    (fun r ho hv => ⟨?_, remaining_turn_lt ht ho hv⟩) h
  obtain ⟨k, hk⟩ := turn_effect (d := d) r
  rw [hk, settle_iterate_pending, ordinary_iff_filter]
  rw [← Remote.settle_pending, ordinary_iff_filter] at ho
  simpa only [Remote.pending, Remote.drained, List.filter_append, takeOrdinary_extended] using ho

/-- An extended packet that the peer sends is never drained, so that the channel is never at its
end. -/
theorem relayLoop_runs {p : Packet} (hp : p ∈ d.packets) (hs : p.stream = .extended) (n : ℕ) :
    (relayLoop (system d) n start).value = false := by
  refine whileLoop_runs (I := fun r => (r.pending d).filter (·.stream = .extended) ≠ [])
    (fun r hr => ⟨?_, ?_⟩) n ?_
  · rw [← Bool.not_eq_false, loopTest_false_iff]
    rintro ⟨heof, hq⟩
    exact hr (by rw [Remote.pending, hq, heof.incoming]; rfl)
  · obtain ⟨k, hk⟩ := turn_effect (d := d) r
    rw [← Remote.settle_pending] at hr
    rw [hk, settle_iterate_pending]
    simpa only [Remote.pending, Remote.drained, List.filter_append, takeOrdinary_extended] using hr
  · exact List.ne_nil_of_mem (List.mem_filter.mpr ⟨hp, by simpa using hs⟩)

/-- Within `n` iterations the loop has ended, every ordinary byte was read before, in order, and
`main` has restored the terminal. -/
structure Completes (d : Delivery) (n : ℕ) : Prop where
  returns : (relayMain (system d) n start).value = some 0
  reads_all : (relayMain (system d) n start).log.flatMap delivered = ordinaryBytes d.packets
  restores : RestoresTerminal (relayMain (system d) n start).log

theorem completes_of_ended {n : ℕ} (h : (relayLoop (system d) n start).value = true) :
    Completes d n := by
  have htrack := tracks_relayLoop n start [] (tracks_start d)
  have hall := htrack.ordinary
  rw [pending_of_ended h, List.nil_append] at hall
  rw [show ordinaryBytes [] = [] from rfl, List.append_nil] at hall
  refine ⟨by rw [relayMain_of_ended h], ?_, ?_⟩
  · rw [relayMain_of_ended h]
    simpa [delivered] using hall
  · rw [relayMain_of_ended h]
    exact ⟨_, _, rfl⟩

/-- However packets and iterations interleave, the relay completes if and only if the peer sends
ordinary data only. -/
theorem completes_iff (d : Delivery) :
    (∃ n, Completes d n) ↔ ∀ p ∈ d.packets, p.stream = .ordinary := by
  constructor
  · rintro ⟨n, hn⟩ p hp
    by_contra hs
    have hext : p.stream = .extended := by
      cases h : p.stream with
      | ordinary => exact absurd h hs
      | extended => rfl
    have := hn.returns
    rw [relayMain_of_running (relayLoop_runs hp hext n)] at this
    cases this
  · intro h
    obtain ⟨n, hn⟩ := relayLoop_ends h
    exact ⟨n, completes_of_ended hn⟩

/-- The peer writes one byte to stderr and closes; everything is there from the first call on. -/
def stderrDelivery : Delivery where
  packets := [⟨.extended, [33]⟩]
  arrives _ := 2
  complete := ⟨1, by decide⟩
  idle _ := ⟨libssh2ErrorEagain, libssh2ErrorEagain_nonpos⟩
  beyond _ := []
  select _ := 0
  getchar _ := none
  write _ := byteWritten

theorem stderr_never_completes : ¬ ∃ n, Completes stderrDelivery n := by
  rintro ⟨n, hn⟩
  have := hn.returns
  rw [relayMain_of_running (relayLoop_runs (p := ⟨.extended, [33]⟩) (by decide) rfl n)] at this
  cases this

end CloudSsh.RelayTermination
