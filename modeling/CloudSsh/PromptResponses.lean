import CloudSsh.BufferedLines
import CloudSsh.PrintBounds
import CloudSsh.WrapperClasses
import Mathlib.Data.List.DropRight

/-!
# Answers to the prompts of a server

`kbd_callback` of `sftp.c` asks the user for an answer to each prompt. A line that is typed goes
through a buffer, and its end is cut off. Behind the end of the input the buffer is what it was
before.
-/
namespace CloudSsh.PromptResponses
open BufferedLines
open WrapperClasses (bytes)
open RelayLoop (Byte cString)

def bufSize : ℕ := 1024

def newline : Byte := 10

/-- `"\r\n"` -/
def lineEnds : List Byte := [13, 10]

/-- `char buf[1024]` -/
structure Buffer where
  mem : List Byte
  size : mem.length = bufSize

/-- `LIBSSH2_USERAUTH_KBDINT_RESPONSE` -/
structure Response where
  text : List Byte
  length : ℕ

/-- What the callback reads and writes. -/
structure Console where
  stdin : List Byte
  buf : Buffer
  stderr : List Byte

def Console.print (c : Console) (texts : List (List Byte)) : Console :=
  { c with stderr := c.stderr ++ texts.flatten }

theorem store_size (b : Buffer) {piece : List Byte} (h : piece.length < bufSize) :
    (piece ++ 0 :: b.mem.drop (piece.length + 1)).length = bufSize := by
  rw [List.length_append, List.length_cons, List.length_drop, b.size]
  omega

/-- What `fgets` stores, with the terminator. -/
def Buffer.store (b : Buffer) (piece : List Byte) (h : piece.length < bufSize) : Buffer :=
  ⟨piece ++ 0 :: b.mem.drop (piece.length + 1), store_size b h⟩

/-- `buf[n] = 0` -/
def Buffer.cut (b : Buffer) (n : ℕ) : Buffer := ⟨b.mem.set n 0, List.length_set.trans b.size⟩

theorem readLine_fits (stdin : List Byte) :
    (readLine newline (bufSize - 1) stdin).1.length < bufSize :=
  Nat.lt_of_le_of_lt (readLine_length _ _) (Nat.sub_lt (Nat.succ_pos _) Nat.one_pos)

/-- `fgets(buf, sizeof(buf), stdin)`, which leaves the buffer as it is at the end of the input. -/
def fgets (c : Console) : Console :=
  if c.stdin = [] then c
  else { c with
    stdin := (readLine newline (bufSize - 1) c.stdin).2
    buf := c.buf.store (readLine newline (bufSize - 1) c.stdin).1 (readLine_fits c.stdin) }

/-- `none` stands for a scan that does not end in the buffer. -/
def strlen (b : Buffer) : Option ℕ := if 0 ∈ b.mem then some (cString b.mem).length else none

/-- Whether there is a `c` in the string. The terminator counts. -/
def strchr (string : List Byte) (c : Byte) : Bool := c ∈ string ∨ c = 0

/-- `while (n > 0 && strchr("\r\n", buf[n - 1])) n--;` -/
def stripped (b : Buffer) : ℕ → ℕ
  | 0 => 0
  | n + 1 => if strchr lineEnds (b.mem.getD n 0) then stripped b n else n + 1

/-- The response that is taken from the buffer. -/
def takeResponse (c : Console) : Option (Response × Console) := do
  let n ← strlen c.buf
  pure (⟨cString (c.buf.cut (stripped c.buf n)).mem, stripped c.buf n⟩,
    { c with buf := c.buf.cut (stripped c.buf n) })

/-- One turn of the loop. -/
def prompt (i : ℕ) (text : List Byte) (c : Console) : Option (Response × Console) := do
  let (r, c) ← takeResponse (fgets (c.print
    [bytes s!"Prompt {i} from server: '", text, bytes "'\n", bytes "Please type response: "]))
  pure (r, c.print [bytes s!"Response {i} from user is '", r.text.take r.length, bytes "'\n\n"])

def promptAll : ℕ → List (List Byte) → Console → Option (List Response × Console)
  | _, [], c => some ([], c)
  | i, text :: prompts, c => do
    let (r, c) ← prompt i text c
    let (rs, c) ← promptAll (i + 1) prompts c
    pure (r :: rs, c)

def kbdCallback (name instruction : List Byte) (prompts : List (List Byte)) (c : Console) :
    Option (List Response × Console) := do
  let (rs, c) ← promptAll 0 prompts (c.print
    [bytes "Performing keyboard-interactive authentication.\n", bytes "Authentication name: '",
      name, bytes "'\n", bytes "Authentication instruction: '", instruction, bytes "'\n",
      bytes s!"Number of prompts: {prompts.length}\n\n"])
  pure (rs, c.print [bytes "Done. Sending keyboard-interactive responses to server now.\n"])

/-! ## One response -/

/-- A text without the line ends behind it. -/
def strip (text : List Byte) : List Byte := text.rdropWhile fun c => c ∈ lineEnds

/-- The answer that stands in the memory. -/
def reply (mem : List Byte) : List Byte := strip (cString mem)

def respond (text : List Byte) : Response := ⟨text, text.length⟩

theorem cString_terminated {text : List Byte} (h : 0 ∉ text) (beyond : List Byte) :
    cString (text ++ 0 :: beyond) = text := by
  induction text with
  | nil => rfl
  | cons b text ih =>
    rw [List.mem_cons, not_or] at h
    rw [List.cons_append, PrintBounds.cString_cons, if_neg (Ne.symm h.1), ih h.2]

theorem cString_stored (piece beyond : List Byte) :
    cString (piece ++ 0 :: beyond) = cString piece := by
  induction piece with
  | nil => rfl
  | cons b piece ih =>
    rw [List.cons_append, PrintBounds.cString_cons, PrintBounds.cString_cons, ih]

theorem not_mem_cString (mem : List Byte) : 0 ∉ cString mem := by
  intro hmem
  have hne := List.mem_takeWhile_imp hmem
  simp at hne

theorem not_mem_reply (mem : List Byte) : 0 ∉ reply mem :=
  fun hmem => not_mem_cString mem ((List.rdropWhile_prefix _ _).subset hmem)

theorem take_cString (mem : List Byte) : mem.take (cString mem).length = cString mem :=
  (List.prefix_iff_eq_take.mp (List.takeWhile_prefix _)).symm

theorem stripped_le (b : Buffer) (n : ℕ) : stripped b n ≤ n := by
  induction n with
  | zero => exact Nat.le_refl 0
  | succ n ih =>
    rw [stripped]
    split
    · exact Nat.le_succ_of_le ih
    · exact Nat.le_refl _

/-- The loop strips the text in front of `n`, which has no terminator in it. -/
theorem take_stripped (b : Buffer) {n : ℕ} (hn : n ≤ b.mem.length) (hnul : 0 ∉ b.mem.take n) :
    b.mem.take (stripped b n) = strip (b.mem.take n) := by
  induction n with
  | zero => rfl
  | succ n ih =>
    have hget : b.mem.getD n 0 = b.mem[n] := by
      rw [List.getD_eq_getElem?_getD, List.getElem?_eq_getElem hn, Option.getD_some]
    have htake : b.mem.take (n + 1) = b.mem.take n ++ [b.mem[n]] :=
      (List.take_append_getElem hn).symm
    rw [htake, List.mem_append, List.mem_singleton, not_or] at hnul
    have hends : strchr lineEnds b.mem[n] = decide (b.mem[n] ∈ lineEnds) := by
      simp [strchr, Ne.symm hnul.2]
    rw [stripped, hget, hends, htake, strip, List.rdropWhile_concat]
    split
    · exact ih (Nat.le_of_succ_le hn) hnul.1
    · exact htake

/-- The index at which the terminator is put. -/
theorem stripped_lt {b : Buffer} (h : 0 ∈ b.mem) :
    stripped b (cString b.mem).length < b.mem.length :=
  Nat.lt_of_le_of_lt (stripped_le b _) (PrintBounds.terminatorIndex_lt h)

theorem take_reply {b : Buffer} (h : 0 ∈ b.mem) :
    b.mem.take (stripped b (cString b.mem).length) = reply b.mem := by
  have hnul : 0 ∉ b.mem.take (cString b.mem).length := by
    rw [take_cString]
    exact not_mem_cString b.mem
  have hlt : (cString b.mem).length < b.mem.length := PrintBounds.terminatorIndex_lt h
  rw [take_stripped b (Nat.le_of_lt hlt) hnul, take_cString, reply]

theorem cut_mem {b : Buffer} (h : 0 ∈ b.mem) : ∃ beyond,
    (b.cut (stripped b (cString b.mem).length)).mem = reply b.mem ++ 0 :: beyond := by
  refine ⟨b.mem.drop (stripped b (cString b.mem).length + 1), ?_⟩
  have hset : (b.cut (stripped b (cString b.mem).length)).mem =
      b.mem.set (stripped b (cString b.mem).length) 0 := rfl
  rw [hset, List.set_eq_take_append_cons_drop, if_pos (stripped_lt h), take_reply h]

theorem takeResponse_overrun {c : Console} (h : 0 ∉ c.buf.mem) : takeResponse c = none := by
  rw [takeResponse, strlen, if_neg h]
  rfl

/-- Where a response was taken, taking it again yields the same. -/
theorem takeResponse_reply {c : Console} (h : 0 ∈ c.buf.mem) :
    ∃ buf : Buffer, 0 ∈ buf.mem ∧ reply buf.mem = reply c.buf.mem ∧
      takeResponse c = some (respond (reply c.buf.mem), { c with buf := buf }) := by
  obtain ⟨beyond, hmem⟩ := cut_mem h
  have hstring : cString (c.buf.cut (stripped c.buf (cString c.buf.mem).length)).mem =
    reply c.buf.mem := by
    rw [hmem, cString_terminated (not_mem_reply c.buf.mem)]
  have hlength : stripped c.buf (cString c.buf.mem).length = (reply c.buf.mem).length := by
    rw [← take_reply h, List.length_take, Nat.min_eq_left (Nat.le_of_lt (stripped_lt h))]
  refine ⟨c.buf.cut (stripped c.buf (cString c.buf.mem).length), ?_, ?_, ?_⟩
  · rw [hmem]
    exact List.mem_append_right _ List.mem_cons_self
  · rw [reply, hstring]
    exact List.rdropWhile_idempotent _ _
  · rw [takeResponse, strlen, if_pos h, respond, ← hlength, ← hstring]
    rfl

/-! ## Prompt by prompt -/

theorem fgets_print (c : Console) (texts : List (List Byte)) :
    fgets (c.print texts) = (fgets c).print texts := by
  unfold fgets Console.print
  split
  · rfl
  · rfl

theorem prompt_reply (i : ℕ) (text : List Byte) {c : Console} (h : 0 ∈ (fgets c).buf.mem) :
    ∃ c' : Console, prompt i text c = some (respond (reply (fgets c).buf.mem), c') ∧
      c'.stdin = (fgets c).stdin ∧ 0 ∈ c'.buf.mem ∧ reply c'.buf.mem = reply (fgets c).buf.mem := by
  obtain ⟨buf, hnul, hreply, htake⟩ := takeResponse_reply (c := (fgets c).print _) h
  rw [prompt, fgets_print, htake]
  exact ⟨_, rfl, rfl, hnul, hreply⟩

theorem prompt_overrun (i : ℕ) (text : List Byte) {c : Console} (h : 0 ∉ (fgets c).buf.mem) :
    prompt i text c = none := by
  rw [prompt, fgets_print, takeResponse_overrun (c := (fgets c).print _) h]
  rfl

theorem fgets_end {c : Console} (h : c.stdin = []) : fgets c = c := if_pos h

theorem fgets_piece {c : Console} (h : c.stdin ≠ []) :
    (fgets c).stdin = (readLine newline (bufSize - 1) c.stdin).2 ∧ 0 ∈ (fgets c).buf.mem ∧
      reply (fgets c).buf.mem = reply (readLine newline (bufSize - 1) c.stdin).1 := by
  rw [fgets, if_neg h]
  refine ⟨rfl, List.mem_append_right _ List.mem_cons_self, ?_⟩
  exact congrArg strip (cString_stored _ _)

/-- The responses to `k` prompts: one to each piece of the input, and behind the end of it what the
last of them was, or what stood in the buffer. -/
def Answered (c : Console) (k : ℕ) (responses : List Response) (c' : Console) : Prop :=
  ∃ pieces, Cut newline (bufSize - 1) pieces c.stdin c'.stdin ∧ pieces.length ≤ k ∧
    (pieces.length < k → c'.stdin = []) ∧
    responses = (pieces.map reply ++ List.replicate (k - pieces.length)
      ((pieces.map reply).getLastD (reply c.buf.mem))).map respond

theorem answered_nil (c : Console) : Answered c 0 [] c :=
  ⟨[], .nil _, Nat.le_refl 0, fun hlt => (Nat.not_lt_zero _ hlt).elim, rfl⟩

theorem answered_end {c c₁ c' : Console} {k : ℕ} {responses : List Response} (h : c.stdin = [])
    (h₁ : c₁.stdin = []) (hreply : reply c₁.buf.mem = reply c.buf.mem)
    (hanswered : Answered c₁ k responses c') :
    Answered c (k + 1) (respond (reply c.buf.mem) :: responses) c' := by
  obtain ⟨pieces, hcut, -, -, rfl⟩ := hanswered
  rw [h₁] at hcut
  obtain ⟨rfl, hend⟩ := hcut.nothing_left
  refine ⟨[], ?_, Nat.zero_le _, fun _ => hend, ?_⟩
  · rw [h, hend]
    exact .nil []
  · rw [hreply]
    rfl

theorem answered_piece {c c₁ c' : Console} {k : ℕ} {responses : List Response} (h : c.stdin ≠ [])
    (h₁ : c₁.stdin = (readLine newline (bufSize - 1) c.stdin).2)
    (hreply : reply c₁.buf.mem = reply (readLine newline (bufSize - 1) c.stdin).1)
    (hanswered : Answered c₁ k responses c') :
    Answered c (k + 1) (respond (reply (readLine newline (bufSize - 1) c.stdin).1) :: responses)
      c' := by
  obtain ⟨pieces, hcut, hlen, hend, rfl⟩ := hanswered
  rw [h₁] at hcut
  refine ⟨_ :: pieces, Cut.readLine_cons (by decide) h hcut, Nat.succ_le_succ hlen,
    fun hlt => hend (Nat.lt_of_succ_lt_succ hlt), ?_⟩
  rw [hreply, List.length_cons, Nat.add_sub_add_right, List.map_cons, List.getLastD_cons]
  rfl

theorem promptAll_cons {i : ℕ} {text : List Byte} {prompts : List (List Byte)} {c c₁ c' : Console}
    {response : Response} {responses : List Response}
    (hprompt : prompt i text c = some (response, c₁))
    (hall : promptAll (i + 1) prompts c₁ = some (responses, c')) :
    promptAll i (text :: prompts) c = some (response :: responses, c') := by
  simp only [promptAll, hprompt, hall, Option.bind_eq_bind, Option.bind_some]
  rfl

/-- The first reading leaves a terminator in the buffer, in which the later scans then end. -/
theorem promptAll_answered (prompts : List (List Byte)) (i : ℕ) {c : Console}
    (h : c.stdin ≠ [] ∨ 0 ∈ c.buf.mem) :
    ∃ responses c', promptAll i prompts c = some (responses, c') ∧
      Answered c prompts.length responses c' := by
  induction prompts generalizing i c with
  | nil => exact ⟨[], c, rfl, answered_nil c⟩
  | cons text prompts ih =>
    by_cases hin : c.stdin = []
    · have hnul : 0 ∈ (fgets c).buf.mem := by
        rw [fgets_end hin]
        exact h.resolve_left (not_not_intro hin)
      obtain ⟨c₁, hprompt, hstdin, hnul₁, hreply⟩ := prompt_reply i text hnul
      obtain ⟨responses, c', hall, hanswered⟩ := ih (i + 1) (.inr hnul₁)
      rw [fgets_end hin] at hprompt hstdin hreply
      exact ⟨_, c', promptAll_cons hprompt hall,
        answered_end hin (hstdin.trans hin) hreply hanswered⟩
    · obtain ⟨hrest, hnul, hpiece⟩ := fgets_piece hin
      obtain ⟨c₁, hprompt, hstdin, hnul₁, hreply⟩ := prompt_reply i text hnul
      obtain ⟨responses, c', hall, hanswered⟩ := ih (i + 1) (.inr hnul₁)
      rw [hpiece] at hprompt hreply
      exact ⟨_, c', promptAll_cons hprompt hall,
        answered_piece hin (hstdin.trans hrest) hreply hanswered⟩

theorem promptAll_overrun (i : ℕ) (text : List Byte) (prompts : List (List Byte)) {c : Console}
    (hin : c.stdin = []) (hnul : 0 ∉ c.buf.mem) : promptAll i (text :: prompts) c = none := by
  rw [promptAll, prompt_overrun i text (by rwa [fgets_end hin])]
  rfl

theorem kbdCallback_answered (name instruction : List Byte)
    (prompts : List (List Byte)) {c : Console} (h : c.stdin ≠ [] ∨ 0 ∈ c.buf.mem) :
    ∃ responses c', kbdCallback name instruction prompts c = some (responses, c') ∧
      Answered c prompts.length responses c' := by
  obtain ⟨responses, c', hall, hanswered⟩ := promptAll_answered prompts 0 (c := c.print _) h
  refine ⟨responses,
    c'.print [bytes "Done. Sending keyboard-interactive responses to server now.\n"], ?_, hanswered⟩
  rw [kbdCallback, hall]
  rfl

theorem kbdCallback_overrun (name instruction text : List Byte)
    (prompts : List (List Byte)) {c : Console} (hin : c.stdin = []) (hnul : 0 ∉ c.buf.mem) :
    kbdCallback name instruction (text :: prompts) c = none := by
  rw [kbdCallback, promptAll_overrun (c := c.print _) 0 text prompts hin hnul]
  rfl

/-- Without prompts nothing is read from the buffer. Otherwise it is read in its bounds exactly if
there is some input or the buffer has a terminator in it, and then the pieces of the input are the
answers. -/
theorem responses_cut (name instruction : List Byte) (prompts : List (List Byte)) (c : Console) :
    (kbdCallback name instruction prompts c = none ∧ prompts ≠ [] ∧ c.stdin = [] ∧ 0 ∉ c.buf.mem) ∨
      ∃ responses c', kbdCallback name instruction prompts c = some (responses, c') ∧
        (prompts = [] ∨ c.stdin ≠ [] ∨ 0 ∈ c.buf.mem) ∧ Answered c prompts.length responses c' := by
  cases prompts with
  | nil => exact .inr ⟨[], _, rfl, .inl rfl, answered_nil c⟩
  | cons text prompts =>
    by_cases h : c.stdin ≠ [] ∨ 0 ∈ c.buf.mem
    · obtain ⟨responses, c', hall, hanswered⟩ :=
        kbdCallback_answered name instruction (text :: prompts) h
      exact .inr ⟨responses, c', hall, .inr h, hanswered⟩
    · rw [not_or, not_not] at h
      exact .inl ⟨kbdCallback_overrun name instruction text prompts h.1 h.2,
        List.cons_ne_nil _ _, h⟩

theorem cString_append (text text' : List Byte) :
    cString (text ++ text') = if 0 ∈ text then cString text else text ++ cString text' := by
  split
  · rename_i h
    exact PrintBounds.cString_append_of_mem h text'
  · rename_i h
    exact List.takeWhile_append_of_pos fun b hb => decide_eq_true fun (heq : b = 0) => h (heq ▸ hb)

/-- The newline behind a line is not part of the answer. -/
theorem reply_line (line : List Byte) : reply (line ++ [newline]) = reply line := by
  rw [reply, cString_append]
  split
  · rfl
  · rename_i h
    have hline : cString line = line :=
      (cString_stored line []).symm.trans (cString_terminated h [])
    rw [reply, hline]
    exact List.rdropWhile_concat_pos _ _ _ (by decide)

/-- If a line is typed for each prompt, and none is too long for the buffer, the answers are the
lines without their line ends, and what is typed behind them stays. -/
theorem typed_lines (name instruction : List Byte) (lines : List (List Byte))
    {prompts : List (List Byte)}
    {rest : List Byte} {c : Console} (hstdin : c.stdin = lines.flatMap (· ++ [newline]) ++ rest)
    (hcount : lines.length = prompts.length)
    (hlines : ∀ line ∈ lines, newline ∉ line ∧ line.length < bufSize - 1) :
    ∃ c', kbdCallback name instruction prompts c =
        some (lines.map fun line => respond (reply line), c') ∧
      c'.stdin = rest := by
  have hcut : Cut newline (bufSize - 1) (lines.map (· ++ [newline])) c.stdin rest := by
    rw [hstdin]
    exact Cut.of_lines hlines rest
  have hlen : (lines.map (· ++ [newline])).length = prompts.length := by
    rw [List.length_map, hcount]
  by_cases hprompts : prompts = []
  · subst hprompts
    cases List.length_eq_zero_iff.mp hcount
    exact ⟨_, rfl, hstdin⟩
  · have hin : c.stdin ≠ [] := by
      intro hin
      rw [hin] at hcut
      rw [hcut.nothing_left.1] at hlen
      exact hprompts (List.length_eq_zero_iff.mp hlen.symm)
    obtain ⟨responses, c', hrun, pieces, hpieces, hle, hend, rfl⟩ :=
      kbdCallback_answered name instruction prompts (.inl hin)
    -- Fewer pieces than lines would be those of the whole input, which has all the lines in it.
    have hall : pieces.length = prompts.length := by
      refine Nat.le_antisymm hle (Nat.not_lt.mp fun hlt => ?_)
      rw [hend hlt] at hpieces
      have hmost := hpieces.length_le hcut
      rw [hlen] at hmost
      exact Nat.not_lt.mpr hmost hlt
    obtain ⟨rfl, rfl⟩ := hpieces.unique hcut (hall.trans hlen.symm)
    refine ⟨c', ?_, rfl⟩
    rw [hrun, hall, Nat.sub_self, List.replicate_zero, List.append_nil, List.map_map, List.map_map]
    refine congrArg (fun answers => some (answers, c')) (List.map_congr_left fun line _ => ?_)
    exact congrArg respond (reply_line line)

theorem typed_lines_password : ∃ c', kbdCallback [] [] [bytes "Password: "]
    ⟨bytes "secret\r\nls\n", ⟨List.replicate bufSize 1, List.length_replicate⟩, []⟩ =
      some ([⟨bytes "secret", 6⟩], c') ∧ c'.stdin = bytes "ls\n" :=
  typed_lines [] [] [bytes "secret\r"] rfl rfl (by decide)

end CloudSsh.PromptResponses
