import CloudSsh.NetconfFraming

/-!
# Reading NETCONF messages to their end

Whatever `netconf_read_until` returns is the message in what it received, however it came in pieces,
and over a channel that brings the bytes of a message it returns that message.
-/
namespace CloudSsh.NetconfConversation
open EnvironmentPrograms InterruptedPrograms BufferedTransfers ReturningPrograms FirstOccurrences
open NetconfFraming
open WrapperClasses (bytes)
open RelayLoop (Byte ReadResult libssh2ErrorEagain)

variable {σ : Type} {sys : System σ} {endtag received base : List Byte}
    {buflen : ℕ} {l : List Event}

def receivedIn : Event → List Byte
  | .channelRead _ _ mem => mem
  | _ => []

def receivedOf (l : List Event) : List Byte := l.flatMap receivedIn

@[simp] theorem receivedOf_concat (l : List Event) (e : Event) :
    receivedOf (l ++ [e]) = receivedOf l ++ receivedIn e := by simp [receivedOf]

section Reading

variable {F : List Event → Prop} {Good : List Event → Event → Prop} {E : Exit → List Event → Prop}

/-- Behind `base`, the channel has brought `received`, which holds no message. -/
structure Unfinished (F : List Event → Prop) (endtag : List Byte) (buflen : ℕ)
    (base received : List Byte) (l : List Event) : Prop where
  frame : F l
  read : receivedOf l = base ++ received
  fits : received.length ≤ buflen
  no_message : message endtag received = none

/-- What is returned is the message in what was received behind `base`. -/
def Answered (F : List Event → Prop) (endtag base : List Byte) (r : Option (List Byte))
    (l : List Event) : Prop :=
  F l ∧ ∃ received, receivedOf l = base ++ received ∧ r = message endtag received

/-- What a log may hold, the reads of the function and its messages, and a fact that they keep. -/
structure Allows (F : List Event → Prop) (endtag : List Byte) (buflen : ℕ) (base : List Byte)
    (Good : List Event → Event → Prop) (E : Exit → List Event → Prop) : Prop where
  read : ∀ received l (r : ReadResult (buflen - received.length)),
    Unfinished F endtag buflen base received l →
    Good l (.channelRead (buflen - received.length) r.count r.bytes) ∧
      F (l ++ [.channelRead (buflen - received.length) r.count r.bytes])
  note : ∀ l text, F l → Good l (.stderr text) ∧ F (l ++ [.stderr text])
  overrun : ∀ l received, receivedOf l = base ++ received → received.length = buflen →
    0 ∉ received →
    E .overrun l

theorem readOn_meets (h : Allows F endtag buflen base Good E) :
    Meets Good (Unfinished F endtag buflen base received) (readOn buflen received : Netconf σ _)
      (fun r l => r.elim (Unfinished F endtag buflen base · l) (Answered F endtag base · l)) E := by
  apply Meets.ite
  · intro _
    exact Meets.pure fun l hl => hl
  · intro _
    apply Meets.bind (Q := fun _ => Unfinished F endtag buflen base received)
    · apply Meets.note
      · exact fun l hl => (h.note l _ hl.frame).1
      · exact fun l hl => ⟨(h.note l _ hl.frame).2, by simp [hl.read, receivedIn],
          hl.fits, hl.no_message⟩
    intro _
    exact Meets.pure fun l hl => ⟨hl.frame, received, hl.read, hl.no_message.symm⟩

theorem search_meets (h : Allows F endtag buflen base Good E) :
    Meets Good (fun l => received.length ≤ buflen ∧ F l ∧ receivedOf l = base ++ received)
      (search endtag buflen received : Netconf σ _)
      (fun r l => r.elim (Unfinished F endtag buflen base · l) (Answered F endtag base · l)) E := by
  apply Meets.assuming
  intro hfits
  unfold search
  by_cases hstring : received.length < buflen ∨ 0 ∈ received
  · rw [cstring, if_pos hstring]
    dsimp only
    cases hfind : findAfter endtag endOfMessage (untilNul received) with
    | some rd => exact Meets.pure fun l hl => ⟨hl.1, received, hl.2, by rw [message, hfind]; rfl⟩
    | none =>
      apply (readOn_meets h).pre
      exact fun l hl => ⟨hl.1, hl.2, hfits, by rw [message, hfind]; rfl⟩
  · rw [cstring, if_neg hstring]
    rw [not_or] at hstring
    exact Meets.leave fun l hl => h.overrun l received hl.2 (by omega) hstring.2

theorem netconfReadUntil_meets (h : Allows F endtag buflen base Good E) (n : ℕ) :
    Meets Good (fun l => F l ∧ receivedOf l = base) (netconfReadUntil sys endtag buflen n)
      (Answered F endtag base) E := by
  apply Meets.turns (L := Unfinished F endtag buflen base)
  · exact fun l hl => ⟨hl.1, by rw [hl.2, List.append_nil], Nat.zero_le _, message_nil endtag⟩
  intro received
  apply Meets.bind (Q := fun r l => (F l ∧ receivedOf l = base ++ (received ++ r.bytes)) ∧
    received.length ≤ buflen ∧ message endtag received = none)
  · apply Meets.ask
    · exact fun r l hl => (h.read received l r hl).1
    · intro r l hl
      exact ⟨⟨(h.read received l r hl).2, by simp [hl.read, receivedIn]⟩, hl.fits, hl.no_message⟩
  intro r
  have hnothing : ∀ l, r.count < 0 → (F l ∧ receivedOf l = base ++ (received ++ r.bytes)) ∧
      received.length ≤ buflen ∧ message endtag received = none →
      Unfinished F endtag buflen base received l := by
    rintro l hneg ⟨⟨hframe, hl⟩, hfits, hnone⟩
    cases r with
    | failed code nonpos => exact ⟨hframe, by simpa [ReadResult.bytes] using hl, hfits, hnone⟩
    | stored mem pos fits =>
      simp only [ReadResult.count] at hneg
      omega
  apply Meets.ite
  · intro hagain
    apply (readOn_meets h).pre
    intro l hl
    exact hnothing l (by rw [hagain]; decide) hl
  intro _
  apply Meets.ite
  · intro hneg
    apply Meets.pre _ fun l hl => hnothing l hneg hl
    apply Meets.bind (Q := fun _ => Unfinished F endtag buflen base received)
    · apply Meets.note
      · exact fun l hl => (h.note l _ hl.frame).1
      · exact fun l hl => ⟨(h.note l _ hl.frame).2, by simp [hl.read, receivedIn],
          hl.fits, hl.no_message⟩
    intro _
    exact Meets.pure fun l hl => ⟨hl.frame, received, hl.read, hl.no_message.symm⟩
  · intro _
    apply (search_meets h).pre
    rintro l ⟨hl, hfits, -⟩
    have hbytes := r.bytes_fit
    refine ⟨?_, hl⟩
    rw [List.length_append]
    omega

end Reading

/-- Every read asks for the free rest of the buffer, and is made only while no message is there. -/
def Asks (endtag : List Byte) (buflen : ℕ) (before : List Event) : Event → Prop
  | .channelRead size _ _ =>
    size + (receivedOf before).length = buflen ∧ message endtag (receivedOf before) = none
  | _ => True

/-- The buffer was filled to its end, without a terminator. -/
def Filled (buflen : ℕ) (x : Exit) (l : List Event) : Prop :=
  x = .overrun ∧ (receivedOf l).length = buflen ∧ 0 ∉ receivedOf l

theorem allows_asks (endtag : List Byte) (buflen : ℕ) :
    Allows (fun _ => True) endtag buflen [] (Asks endtag buflen) (Filled buflen) where
  read received l r hl := by
    have hreceived := hl.read
    rw [List.nil_append] at hreceived
    have hfits := hl.fits
    refine ⟨⟨?_, ?_⟩, trivial⟩
    · rw [hreceived]
      omega
    · rw [hreceived]
      exact hl.no_message
  note _ _ _ := ⟨trivial, trivial⟩
  overrun l received hl hlength hnul := by
    rw [List.nil_append] at hl
    exact ⟨rfl, by rw [hl]; exact hlength, by rw [hl]; exact hnul⟩

/-- However the bytes come in pieces, and whatever fails on the way: `netconf_read_until` stays
inside its buffer, reads no more once the message is there, and returns exactly the message in what
it has received, which is that of every longer stream. It searches behind the buffer only if that
has been filled without a terminator. -/
theorem reads_message (sys : System σ) (endtag : List Byte) (buflen n : ℕ) (s : σ) :
    let run := netconfReadUntil sys endtag buflen n s
    Throughout (Asks endtag buflen) run.log ∧
      (∀ r, run.value = .value r → r = message endtag (receivedOf run.log)) ∧
      (∀ text stream, run.value = .value (some text) → receivedOf run.log <+: stream →
        message endtag stream = some text) ∧
      ∀ x, run.value = .left x → Filled buflen x run.log := by
  intro run
  have hmeets := @netconfReadUntil_meets _ sys _ _ _ _ _ _ (allows_asks endtag buflen) n
  have hvalue : ∀ r, run.value = .value r → r = message endtag (receivedOf run.log) := by
    intro r hr
    obtain ⟨-, received, hreceived, hanswer⟩ := hmeets.value ⟨trivial, rfl⟩ hr
    rw [hreceived]
    exact hanswer
  refine ⟨hmeets.log ⟨trivial, rfl⟩ s, hvalue, ?_, fun x hx => hmeets.left ⟨trivial, rfl⟩ hx⟩
  intro text stream htext hstream
  exact message_of_prefix (hvalue _ htext).symm hstream

/-! ## Messages that arrive -/

/-- A channel that brings the bytes `pending`, piece by piece and sooner or later. -/
structure Delivers (sys : System σ) (pending : σ → List Byte) (left : σ → ℕ) : Prop where
  read : ∀ len s, pending s = (sys.channelRead len s).1.bytes ++ pending (sys.channelRead len s).2
  wait : ∀ len s, left (sys.channelRead len s).2 ≤ left s
  on : ∀ len s, 0 < len → pending s ≠ [] → 0 < (sys.channelRead len s).1.count ∨
    ((sys.channelRead len s).1.count = 0 ∨ (sys.channelRead len s).1.count = libssh2ErrorEagain) ∧
      left (sys.channelRead len s).2 < left s

/-- What is left of the message, while it is not complete. -/
structure Coming (endtag stream : List Byte) (pending : σ → List Byte)
    (received : List Byte) (t : σ) : Prop where
  stream : stream = received ++ pending t
  no_message : message endtag received = none

theorem search_returns {pending : σ → List Byte} {text stream : List Byte} {t : σ}
    (htext : message endtag stream = some text) (hstream : stream = received ++ pending t)
    (hfits : received.length < buflen) :
    Returns (fun _ => True) (fun _ => (search endtag buflen received : Netconf σ _)) t
      (fun r u => u = t ∧ r.elim (fun i => i = received ∧ message endtag received = none)
        (fun r => r = some text)) fun _ _ => False := by
  have hstring : cstring buflen received = some (untilNul received) := if_pos (.inl hfits)
  simp only [search, hstring]
  cases hfind : findAfter endtag endOfMessage (untilNul received) with
  | none =>
    simp only [readOn, if_pos hfits]
    exact Returns.pure ⟨rfl, rfl, by rw [message, hfind]; rfl⟩
  | some rd =>
    have hmessage : message endtag received = some ((untilNul received).take rd) := by
      rw [message, hfind]
      rfl
    have hlonger := message_append hmessage (pending t)
    rw [← hstream, htext] at hlonger
    exact Returns.pure ⟨rfl, hlonger.symm⟩

theorem netconfReadUntil_returns {pending : σ → List Byte} {left : σ → ℕ}
    (h : Delivers sys pending left) {s : σ} {text : List Byte}
    (htext : message endtag (pending s) = some text) (hfits : (pending s).length < buflen) :
    Returns (fun _ => True) (fun n => netconfReadUntil sys endtag buflen n) s
      (fun r _ => r = some text) fun _ _ => False := by
  apply Returns.turns (fun _ t => (pending t).length + left t) (Coming endtag (pending s) pending)
  · intro received t ht
    have hlength := congrArg List.length ht.stream
    rw [List.length_append] at hlength
    have hreceived : received.length < buflen := by omega
    have hmore : pending t ≠ [] := by
      intro hnil
      have hstream := ht.stream
      rw [hnil, List.append_nil] at hstream
      rw [hstream, ht.no_message] at htext
      cases htext
    have hread : Returns (fun _ => True)
        (fun _ => (ask (sys.channelRead (buflen - received.length)) fun r =>
          .channelRead (buflen - received.length) r.count r.bytes : Netconf σ _)) t
        (fun r u => r = (sys.channelRead (buflen - received.length) t).1 ∧
          u = (sys.channelRead (buflen - received.length) t).2) fun _ _ => False :=
      Returns.ask trivial ⟨rfl, rfl⟩
    apply Returns.bind hread
    rintro r u ⟨hr, hu⟩
    have hpending := h.read (buflen - received.length) t
    have hwait := h.wait (buflen - received.length) t
    have hon := h.on (buflen - received.length) t (by omega) hmore
    rw [← hr, ← hu] at hpending hon
    rw [← hu] at hwait
    apply Returns.ite
    · intro hagain
      simp only [readOn, if_pos hreceived]
      apply Returns.pure
      have hneg : libssh2ErrorEagain < 0 := by decide
      have hlt : left u < left t := by
        rcases hon with hpos | hon
        · omega
        · exact hon.2
      cases r with
      | stored mem pos fits =>
        simp only [ReadResult.count] at hagain
        omega
      | failed code nonpos =>
        simp only [ReadResult.bytes, List.nil_append] at hpending
        refine ⟨⟨?_, ht.no_message⟩, ?_⟩
        · rw [← hpending]
          exact ht.stream
        · rw [hpending]
          omega
    intro hagain
    apply Returns.ite
    · intro hneg
      rcases hon with hpos | hon
      · omega
      · rcases hon.1 with hzero | hblocks
        · omega
        · exact absurd hblocks hagain
    · intro hnonneg
      have hstream : pending s = (received ++ r.bytes) ++ pending u := by
        rw [List.append_assoc, ← hpending]
        exact ht.stream
      have hshorter := congrArg List.length hstream
      rw [List.length_append] at hshorter
      apply (search_returns htext hstream (by omega)).mono
      rintro (received' | r') v ⟨rfl, hv⟩
      · obtain ⟨rfl, hnone⟩ := hv
        refine ⟨⟨hstream, hnone⟩, ?_⟩
        have hbytes := congrArg List.length hpending
        rw [List.length_append] at hbytes
        cases r with
        | stored mem pos fits =>
          simp only [ReadResult.bytes] at hbytes
          omega
        | failed code nonpos =>
          simp only [ReadResult.bytes, List.length_nil] at hbytes
          rcases hon with hpos | hon
          · simp only [ReadResult.count] at hpos
            omega
          · omega
      · exact hv
  · exact ⟨rfl, message_nil endtag⟩

/-- Over a channel that brings the bytes sooner or later, in whatever pieces, the message among them
is returned, if they all have room in the buffer. -/
theorem message_arrives {pending : σ → List Byte} {left : σ → ℕ} (h : Delivers sys pending left)
    {s : σ} {text : List Byte} (htext : message endtag (pending s) = some text)
    (hfits : (pending s).length < buflen) :
    ∃ n₀ o, (∀ n, n₀ ≤ n → netconfReadUntil sys endtag buflen n s = o) ∧
      o.value = .value (some text) := by
  obtain ⟨n₀, ⟨v, t, log⟩, hrun, -, hend⟩ := netconfReadUntil_returns h htext hfits
  cases v with
  | cut => exact hend.elim
  | left x => exact hend.elim
  | value r => exact ⟨n₀, _, hrun, congrArg Ending.value hend⟩

theorem one_fits (c : Byte) (len : ℕ) : [c].length ≤ len + 1 := Nat.le_add_left 1 len

/-- A channel that brings one byte at a time. -/
def byteByByte : System (List Byte) where
  channelWrite _ len s := (⟨len, Int.le_refl _⟩, s)
  channelRead len s :=
    match s, len with
    | c :: rest, len + 1 => (.stored [c] Nat.one_pos (one_fits c len), rest)
    | s, _ => (.failed libssh2ErrorEagain RelayLoop.libssh2ErrorEagain_nonpos, s)

theorem byteByByte_delivers : Delivers byteByByte id fun _ => 0 where
  read len s := by
    cases s with
    | nil => rfl
    | cons c rest => cases len <;> rfl
  wait _ _ := Nat.le_refl _
  on len s hlen hs := by
    obtain ⟨len, rfl⟩ := Nat.exists_eq_succ_of_ne_zero (Nat.ne_of_gt hlen)
    cases s with
    | nil => exact absurd rfl hs
    | cons c rest => exact .inl Int.one_pos

theorem message_arrives_hello :
    ∃ n₀ o, (∀ n, n₀ ≤ n → netconfReadUntil byteByByte (bytes "</hello>") bufSize n
      (bytes "<hello></hello>]]>]]>") = o) ∧ o.value = .value (some (bytes "<hello></hello>")) :=
  message_arrives byteByByte_delivers (by decide) (by decide)

/-! ## The conversation -/

def gotIn : Event → List (ℕ × List Byte)
  | .got len buf => [(len, buf)]
  | _ => []

/-- The answers that were shown. -/
def gotOf (l : List Event) : List (ℕ × List Byte) := l.flatMap gotIn

@[simp] theorem gotOf_concat (l : List Event) (e : Event) :
    gotOf (l ++ [e]) = gotOf l ++ gotIn e := by
  simp [gotOf]

def greetingTag : List Byte := bytes "</hello>"

def replyTag : List Byte := bytes "</rpc-reply>"

/-- The request is made only when the greeting of the server is there. -/
def Ordered (upper : UInt32) (before : List Event) : Event → Prop
  | .channelWrite buf len _ =>
    (buf = hello ∧ len = upper.toNat * 2 ^ 32 + hello.length ∧ receivedOf before = []) ∨
      (buf = rpc ∧ len = rpc.length ∧ ∃ greeting,
        message greetingTag (receivedOf before) = some greeting)
  | _ => True

theorem netconfWrite_meets {upper : UInt32} {len : UInt64} {buf : List Byte}
    {shown : List (ℕ × List Byte)}
    (hgood : ∀ l i, receivedOf l = base → Ordered upper l (.channelWrite buf len.toNat i)) (n : ℕ)
    {E : Exit → List Event → Prop} :
    Meets (Ordered upper) (fun l => gotOf l = shown ∧ receivedOf l = base)
      (netconfWrite sys n buf len)
      (fun _ l => gotOf l = shown ∧ receivedOf l = base) E := by
  apply Meets.turns (L := fun _ l => gotOf l = shown ∧ receivedOf l = base)
  · exact fun l hl => hl
  intro wr
  apply Meets.bind (Q := fun _ l => gotOf l = shown ∧ receivedOf l = base)
  · apply Meets.ask
    · exact fun i l hl => hgood l i hl.2
    · exact fun i l hl => ⟨by simp [hl.1, gotIn], by simp [hl.2, receivedIn]⟩
  intro i
  apply Meets.ite
  · intro _
    apply Meets.bind (Q := fun _ l => gotOf l = shown ∧ receivedOf l = base)
    · apply Meets.note
      · exact fun l _ => trivial
      · exact fun l hl => ⟨by simp [hl.1, gotIn], by simp [hl.2, receivedIn]⟩
    intro _
    exact Meets.pure fun l hl => hl
  · intro _
    apply Meets.ite
    · exact fun _ => Meets.pure fun l hl => hl
    · exact fun _ => Meets.pure fun l hl => hl

theorem allows_ordered (upper : UInt32) (shown : List (ℕ × List Byte))
    (endtag base : List Byte) (buflen : ℕ) :
    Allows (fun l => gotOf l = shown) endtag buflen base (Ordered upper) (fun _ _ => True) where
  read _ _ _ hl := ⟨trivial, by simp [hl.frame, gotIn]⟩
  note _ _ hl := ⟨trivial, by simp [hl, gotIn]⟩
  overrun _ _ _ _ _ := trivial

/-- One exchange: the answer is the message in what is received from its beginning on. -/
theorem request_meets {upper : UInt32} {len : UInt64} {text : List Byte}
    {shown : List (ℕ × List Byte)}
    (hgood : ∀ l i, receivedOf l = base → Ordered upper l (.channelWrite text len.toNat i)) (n : ℕ)
    (sending reading : String) (endtag : List Byte) :
    Meets (Ordered upper) (fun l => gotOf l = shown ∧ receivedOf l = base)
      (request sys n sending text len reading endtag)
      (fun _ l => ∃ received answer, message endtag received = some answer ∧
        gotOf l = shown ++ [(answer.length, answer)] ∧ receivedOf l = base ++ received)
      (fun _ _ => True) := by
  have hnote : ∀ text, Meets (Ordered upper) (fun l => gotOf l = shown ∧ receivedOf l = base)
      (note (.stderr text) : Netconf σ Unit) (fun _ l => gotOf l = shown ∧ receivedOf l = base)
      (fun _ _ => True) := by
    intro text
    apply Meets.note
    · exact fun l _ => trivial
    · exact fun l hl => ⟨by simp [hl.1, gotIn], by simp [hl.2, receivedIn]⟩
  apply Meets.bind (hnote _)
  intro _
  apply Meets.bind (netconfWrite_meets hgood n)
  intro sent
  apply Meets.ite
  · intro _
    apply Meets.bind (hnote _)
    intro _
    apply Meets.bind (netconfReadUntil_meets (allows_ordered upper shown endtag base bufSize) n)
    intro answer
    cases answer with
    | none => exact Meets.leave fun l _ => trivial
    | some buf =>
      apply Meets.note
      · exact fun l _ => trivial
      · rintro l ⟨hshown, received, hreceived, hanswer⟩
        exact ⟨received, buf, hanswer.symm, by simp [hshown, gotIn],
          by simp [hreceived, receivedIn]⟩
  · exact fun _ => Meets.leave fun l _ => trivial

theorem filled_toNat (upper : UInt32) {text : List Byte} (h : text.length < 2 ^ 32) :
    (filled upper text).toNat = upper.toNat * 2 ^ 32 + text.length := by
  have hupper := upper.toNat_lt
  apply UInt64.toNat_ofNat_of_lt'
  change _ < 2 ^ 64
  omega

/-- The program sends its request only when the greeting of the server is there. If the conversation
comes to its end, both answers shown are messages of consecutive parts of what was received, the
reply behind the piece that completed the greeting. The length of the first message is right only
if the upper half of `len` happened to be zero. -/
theorem conversation_answers (sys : System σ) (upper : UInt32) (n : ℕ) (s : σ) :
    let run := conversation sys upper n s
    Throughout (Ordered upper) run.log ∧
      (run.value = .value () → ∃ first second greeting reply,
        receivedOf run.log = first ++ second ∧ message greetingTag first = some greeting ∧
        message replyTag second = some reply ∧
        gotOf run.log = [(greeting.length, greeting), (reply.length, reply)]) := by
  intro run
  have hmeets : Meets (Ordered upper) (fun l => gotOf l = [] ∧ receivedOf l = [])
      (conversation sys upper n) (fun _ l => ∃ first second greeting reply,
        receivedOf l = first ++ second ∧ message greetingTag first = some greeting ∧
        message replyTag second = some reply ∧
        gotOf l = [(greeting.length, greeting), (reply.length, reply)]) (fun _ _ => True) := by
    apply Meets.bind
    · apply request_meets
      exact fun l i hl => .inl ⟨rfl, filled_toNat upper (by decide +kernel), hl⟩
    intro _
    apply Meets.known
    intro first
    apply Meets.given
    intro greeting hgreeting
    apply Meets.post
    · apply request_meets
      intro l i hl
      refine .inr ⟨rfl, ?_, greeting, ?_⟩
      · rw [filled_toNat 0 (by decide +kernel), UInt32.toNat_zero, Nat.zero_mul, Nat.zero_add]
      rw [hl]
      exact hgreeting
    · rintro _ l ⟨second, reply, hreply, hshown, hreceived⟩
      exact ⟨first, second, greeting, reply, hreceived, hgreeting, hreply, hshown⟩
  exact ⟨hmeets.log ⟨rfl, rfl⟩ s, fun hv => hmeets.value ⟨rfl, rfl⟩ hv⟩

end CloudSsh.NetconfConversation
