import Mathlib.Data.List.Basic

/-!
# Lines that are read into a buffer

Text is read line by line into a buffer. A line that does not fit is cut into several pieces, of
which all but the last fill the buffer. The pieces are given by the text.
-/
namespace BufferedLines

variable {α : Type} (newline : α)

/-- What may be read in front of `text`. Newlines stand at its end only, and without one it fills
the buffer, or there is no more text. -/
structure Piece (k : ℕ) (piece text : List α) : Prop where
  nonempty : piece ≠ []
  fits : piece.length ≤ k
  ends : (∃ line, newline ∉ line ∧ piece = line ++ [newline]) ∨
    newline ∉ piece ∧ (piece.length = k ∨ text = [])

/-- The pieces that are read one after the other. -/
inductive Cut (k : ℕ) : List (List α) → List α → List α → Prop where
  | nil (text : List α) : Cut k [] text text
  | cons {piece text rest : List α} {pieces : List (List α)} (first : Piece newline k piece text)
      (cut : Cut k pieces text rest) : Cut k (piece :: pieces) (piece ++ text) rest

variable {newline} {k : ℕ} {piece piece' text text' line rest rest' : List α}
  {pieces pieces' : List (List α)}

theorem Piece.of_line (hline : newline ∉ line) (hk : line.length < k) (text : List α) :
    Piece newline k (line ++ [newline]) text where
  nonempty := List.append_ne_nil_of_right_ne_nil line (List.cons_ne_nil _ _)
  fits := by
    rw [List.length_append, List.length_singleton]
    exact hk
  ends := .inl ⟨line, hline, rfl⟩

namespace Cut

theorem nil_left (h : Cut newline k [] text rest) : text = rest := by
  cases h
  rfl

theorem cons_left (h : Cut newline k (piece :: pieces) text rest) :
    ∃ text', Piece newline k piece text' ∧ text = piece ++ text' ∧
      Cut newline k pieces text' rest := by
  cases h with
  | cons first cut => exact ⟨_, first, rfl, cut⟩

theorem nothing_left (h : Cut newline k pieces [] rest) : pieces = [] ∧ rest = [] := by
  cases pieces with
  | nil => exact ⟨rfl, h.nil_left.symm⟩
  | cons piece pieces =>
    obtain ⟨text, hpiece, htext, -⟩ := h.cons_left
    exact absurd (List.append_eq_nil_iff.mp htext.symm).1 hpiece.nonempty

/-- Lines that fit are the pieces. -/
theorem of_lines {lines : List (List α)} (hlines : ∀ line ∈ lines, newline ∉ line ∧ line.length < k)
    (rest : List α) :
    Cut newline k (lines.map (· ++ [newline])) (lines.flatMap (· ++ [newline]) ++ rest) rest := by
  induction lines with
  | nil => exact nil rest
  | cons line lines ih =>
    obtain ⟨hline, hfits⟩ := hlines line List.mem_cons_self
    have hcut := ih fun line hmem => hlines line (List.mem_cons_of_mem _ hmem)
    rw [List.map_cons, List.flatMap_cons, List.append_assoc]
    exact cons (Piece.of_line hline hfits _) hcut

end Cut

/-! ## One reading -/

variable [DecidableEq α]

/-- The text up to the first newline, which is part of it, but `k` elements at most;
and the rest. -/
def readLine (newline : α) : ℕ → List α → List α × List α
  | 0, text => ([], text)
  | _ + 1, [] => ([], [])
  | k + 1, c :: text =>
    if c = newline then ([c], text)
    else (c :: (readLine newline k text).1, (readLine newline k text).2)

theorem readLine_append (k : ℕ) (text : List α) :
    (readLine newline k text).1 ++ (readLine newline k text).2 = text := by
  induction k generalizing text with
  | zero => rfl
  | succ k ih =>
    cases text with
    | nil => rfl
    | cons c text =>
      rw [readLine]
      split
      · rfl
      · rw [List.cons_append, ih]

theorem readLine_length (k : ℕ) (text : List α) : (readLine newline k text).1.length ≤ k := by
  induction k generalizing text with
  | zero => exact Nat.le_refl 0
  | succ k ih =>
    cases text with
    | nil => exact Nat.zero_le _
    | cons c text =>
      rw [readLine]
      split
      · exact Nat.le_add_left 1 k
      · exact Nat.succ_le_succ (ih text)

theorem readLine_ends (k : ℕ) (text : List α) :
    (∃ line, newline ∉ line ∧ (readLine newline k text).1 = line ++ [newline]) ∨
      newline ∉ (readLine newline k text).1 ∧
        ((readLine newline k text).1.length = k ∨ (readLine newline k text).2 = []) := by
  induction k generalizing text with
  | zero => exact .inr ⟨List.not_mem_nil, .inl rfl⟩
  | succ k ih =>
    cases text with
    | nil => exact .inr ⟨List.not_mem_nil, .inr rfl⟩
    | cons c text =>
      rw [readLine]
      split
      · rename_i hc
        exact .inl ⟨[], List.not_mem_nil, by rw [hc, List.nil_append]⟩
      · rename_i hc
        rcases ih text with ⟨line, hline, hread⟩ | ⟨hnone, hend⟩
        · refine .inl ⟨c :: line, ?_, by rw [hread, List.cons_append]⟩
          exact fun hmem => (List.mem_cons.mp hmem).elim (fun heq => hc heq.symm) hline
        · refine .inr ⟨?_, hend.imp_left fun hlen => congrArg Nat.succ hlen⟩
          exact fun hmem => (List.mem_cons.mp hmem).elim (fun heq => hc heq.symm) hnone

theorem readLine_nonempty (hk : 0 < k) (htext : text ≠ []) : (readLine newline k text).1 ≠ [] := by
  obtain ⟨k, rfl⟩ := Nat.exists_eq_succ_of_ne_zero (Nat.ne_of_gt hk)
  obtain ⟨c, text, rfl⟩ := List.exists_cons_of_ne_nil htext
  rw [readLine]
  split
  · exact List.cons_ne_nil _ _
  · exact List.cons_ne_nil _ _

theorem readLine_piece (hk : 0 < k) (htext : text ≠ []) :
    Piece newline k (readLine newline k text).1 (readLine newline k text).2 :=
  ⟨readLine_nonempty hk htext, readLine_length k text, readLine_ends k text⟩

/-- A line that fits is read as a whole. -/
theorem readLine_line (hline : newline ∉ line) (hk : line.length < k) (text : List α) :
    readLine newline k (line ++ newline :: text) = (line ++ [newline], text) := by
  induction line generalizing k with
  | nil =>
    obtain ⟨k, rfl⟩ := Nat.exists_eq_succ_of_ne_zero (Nat.ne_of_gt hk)
    rw [List.nil_append, readLine, if_pos rfl, List.nil_append]
  | cons c line ih =>
    obtain ⟨k, rfl⟩ := Nat.exists_eq_succ_of_ne_zero (Nat.ne_of_gt (Nat.zero_lt_of_lt hk))
    rw [List.mem_cons, not_or] at hline
    rw [List.cons_append, readLine, if_neg (fun heq => hline.1 heq.symm),
      ih hline.2 (Nat.lt_of_succ_lt_succ hk), List.cons_append]

/-- What fills the buffer, or is the last of the text, is read without a newline. -/
theorem readLine_part (hpiece : newline ∉ piece) (hk : piece.length ≤ k)
    (hend : piece.length = k ∨ text = []) : readLine newline k (piece ++ text) = (piece, text) := by
  induction piece generalizing k with
  | nil =>
    rcases hend with rfl | rfl
    · rfl
    · cases k with
      | zero => rfl
      | succ k => rfl
  | cons c piece ih =>
    obtain ⟨k, rfl⟩ := Nat.exists_eq_succ_of_ne_zero (Nat.ne_of_gt (Nat.zero_lt_of_lt hk))
    rw [List.mem_cons, not_or] at hpiece
    rw [List.cons_append, readLine, if_neg (fun heq => hpiece.1 heq.symm),
      ih hpiece.2 (Nat.le_of_succ_le_succ hk) (hend.imp_left Nat.succ.inj)]

theorem Piece.readLine_eq (h : Piece newline k piece text) :
    readLine newline k (piece ++ text) = (piece, text) := by
  rcases h.ends with ⟨line, hline, rfl⟩ | ⟨hnone, hend⟩
  · have hfits : line.length < k := by
      have := h.fits
      rw [List.length_append, List.length_singleton] at this
      exact this
    rw [List.append_assoc]
    exact readLine_line hline hfits text
  · exact readLine_part hnone h.fits hend

theorem Piece.unique (h : Piece newline k piece text) (h' : Piece newline k piece' text')
    (heq : piece ++ text = piece' ++ text') : piece = piece' ∧ text = text' := by
  have hread := h.readLine_eq
  rw [heq, h'.readLine_eq, Prod.mk.injEq] at hread
  exact ⟨hread.1.symm, hread.2.symm⟩

/-! ## One reading after the other -/

namespace Cut

theorem readLine_cons (hk : 0 < k) (htext : text ≠ [])
    (h : Cut newline k pieces (readLine newline k text).2 rest) :
    Cut newline k ((readLine newline k text).1 :: pieces) text rest := by
  have hcut := cons (readLine_piece hk htext) h
  rwa [readLine_append] at hcut

/-- As many pieces of one text are the same. -/
theorem unique (h : Cut newline k pieces text rest) (h' : Cut newline k pieces' text rest')
    (hlen : pieces.length = pieces'.length) : pieces = pieces' ∧ rest = rest' := by
  induction pieces generalizing text pieces' with
  | nil =>
    cases List.length_eq_zero_iff.mp hlen.symm
    exact ⟨rfl, h.nil_left.symm.trans h'.nil_left⟩
  | cons piece pieces ih =>
    obtain ⟨piece', pieces', rfl⟩ := List.exists_cons_of_length_eq_add_one hlen.symm
    obtain ⟨text₁, hpiece, rfl, hcut⟩ := h.cons_left
    obtain ⟨text₂, hpiece', htext, hcut'⟩ := h'.cons_left
    obtain ⟨rfl, rfl⟩ := hpiece.unique hpiece' htext
    obtain ⟨rfl, rfl⟩ := ih hcut hcut' (Nat.succ.inj hlen)
    exact ⟨rfl, rfl⟩

/-- The pieces of the whole text are the most. -/
theorem length_le (h : Cut newline k pieces text []) (h' : Cut newline k pieces' text rest) :
    pieces'.length ≤ pieces.length := by
  induction pieces generalizing text pieces' with
  | nil =>
    cases h.nil_left
    exact Nat.le_of_eq (congrArg List.length h'.nothing_left.1)
  | cons piece pieces ih =>
    cases pieces' with
    | nil => exact Nat.zero_le _
    | cons piece' pieces' =>
      obtain ⟨text₁, hpiece, rfl, hcut⟩ := h.cons_left
      obtain ⟨text₂, hpiece', htext, hcut'⟩ := h'.cons_left
      obtain ⟨rfl, rfl⟩ := hpiece.unique hpiece' htext
      exact Nat.succ_le_succ (ih hcut hcut')

end Cut

end BufferedLines
