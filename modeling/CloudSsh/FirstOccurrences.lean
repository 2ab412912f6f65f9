import Mathlib.Data.List.Infix

/-!
# First occurrences

Where a key begins for the first time in a text. What follows the text has no influence on it, so
that a text may be searched before all of it is there.
-/
namespace FirstOccurrences

variable {α : Type} [DecidableEq α]

/-- The offset of the first occurrence of `key`. -/
def find (key : List α) : List α → Option ℕ
  | [] => if key = [] then some 0 else none
  | c :: text => if key <+: c :: text then some 0 else (find key text).map (· + 1)

variable {key text more : List α} {i j : ℕ}

theorem find_isPrefix (h : find key text = some i) : key <+: text.drop i := by
  induction text generalizing i with
  | nil =>
    rw [find] at h
    split at h
    · rename_i hkey
      rw [hkey]
      exact List.nil_prefix
    · cases h
  | cons c text ih =>
    rw [find] at h
    split at h
    · cases h
      assumption
    · obtain ⟨j, hj, rfl⟩ := Option.map_eq_some_iff.mp h
      exact ih hj

theorem find_fits (h : find key text = some i) : i + key.length ≤ text.length := by
  induction text generalizing i with
  | nil =>
    rw [find] at h
    split at h
    · rename_i hkey
      cases h
      simp [hkey]
    · cases h
  | cons c text ih =>
    rw [find] at h
    split at h
    · rename_i hkey
      cases h
      have hlength := hkey.length_le
      omega
    · obtain ⟨j, hj, rfl⟩ := Option.map_eq_some_iff.mp h
      have hle := ih hj
      rw [List.length_cons]
      omega

/-- The key is found in a text as soon as the text has come that far. -/
theorem find_append (h : find key text = some i) (more : List α) :
    find key (text ++ more) = some i := by
  induction text generalizing i with
  | nil =>
    rw [find] at h
    split at h
    · rename_i hkey
      cases h
      subst hkey
      cases more <;> simp [find]
    · cases h
  | cons c text ih =>
    rw [find] at h
    rw [List.cons_append, find]
    split at h
    · rename_i hkey
      cases h
      have hlong : key <+: c :: (text ++ more) := hkey.trans (List.prefix_append (c :: text) more)
      rw [if_pos hlong]
    · rename_i hkey
      obtain ⟨j, hj, rfl⟩ := Option.map_eq_some_iff.mp h
      have hfits := find_fits hj
      have hshort : key.length ≤ (c :: text).length := by
        rw [List.length_cons]
        omega
      have hnot : ¬ key <+: c :: (text ++ more) := by
        intro hlong
        exact hkey (List.prefix_of_prefix_length_le hlong
          (List.prefix_append (c :: text) more) hshort)
      rw [if_neg hnot, ih hj]
      rfl

/-- Of two keys, the second is looked for where the first has been found. -/
def findAfter (key key' text : List α) : Option ℕ :=
  (find key text).bind fun i => (find key' (text.drop i)).map (i + ·)

theorem findAfter_append {key' : List α} (h : findAfter key key' text = some i) (more : List α) :
    findAfter key key' (text ++ more) = some i := by
  obtain ⟨j, hj, hi⟩ := Option.bind_eq_some_iff.mp h
  obtain ⟨k, hk, rfl⟩ := Option.map_eq_some_iff.mp hi
  have hle : j ≤ text.length := by
    have hfits := find_fits hj
    omega
  rw [findAfter, find_append hj, Option.bind_some,
    List.drop_append_of_le_length hle, find_append hk]
  rfl

/-- What stands before the second key, followed by it, begins the text. -/
theorem findAfter_isPrefix {key' : List α} (h : findAfter key key' text = some i) :
    text.take i ++ key' <+: text := by
  obtain ⟨j, hj, hi⟩ := Option.bind_eq_some_iff.mp h
  obtain ⟨k, hk, rfl⟩ := Option.map_eq_some_iff.mp hi
  have hkey := find_isPrefix hk
  rw [List.drop_drop] at hkey
  obtain ⟨rest, hrest⟩ := hkey
  exact ⟨rest, by rw [List.append_assoc, hrest, List.take_append_drop]⟩

end FirstOccurrences
