import CloudSsh.WrapperClasses

/-!
# Recognizing authentication methods

The session looks for a method name anywhere in the list of the server. A name without a
comma occurs in a list exactly if it occurs in one of its elements, so that the answer is
right as long as nothing but the name itself contains what is looked for.
-/
namespace CloudSsh.MethodLists

/-! ## Searching a separated list -/

section Separated

variable {α : Type} {sep : α} {key : List α}

/-- What holds no separator occurs on one side of it or on the other. -/
theorem infix_append_cons_iff (hsep : sep ∉ key) (l r : List α) :
    key <:+: l ++ sep :: r ↔ key <:+: l ∨ key <:+: r := by
  constructor
  · rintro ⟨pre, post, h⟩
    rcases List.append_eq_append_iff.mp h with ⟨a, hl, hpost⟩ | ⟨a, hpre, hr⟩
    · exact .inl ⟨pre, a, hl.symm⟩
    rcases List.append_eq_append_iff.mp hpre with ⟨b, hl, hkey⟩ | ⟨b, hpre', ha⟩
    · -- the part of the key behind `l` would start with the separator
      cases a with
      | nil => exact .inl ⟨pre, [], by simp [hl, hkey]⟩
      | cons c a =>
        obtain rfl : sep = c := (List.cons.inj hr).1
        exact absurd (by simp [hkey]) hsep
    · subst ha
      cases b with
      | nil =>
        cases key with
        | nil => exact .inl List.nil_infix
        | cons c key =>
          obtain rfl : sep = c := (List.cons.inj hr).1
          exact absurd (List.mem_cons_self ..) hsep
      | cons c b => exact .inr ⟨b, post, (List.cons.inj hr).2.symm⟩
  · rintro (h | h)
    · exact List.infix_append_of_infix_left h
    · exact List.infix_append_of_infix_right (List.infix_cons h)

theorem infix_intercalate_iff (hsep : sep ∉ key) {names : List (List α)} (hne : names ≠ []) :
    key <:+: [sep].intercalate names ↔ ∃ name ∈ names, key <:+: name := by
  induction names with
  | nil => exact absurd rfl hne
  | cons name names ih =>
    cases names with
    | nil => simp
    | cons name' names =>
      rw [List.intercalate_cons_of_ne_nil (by simp), List.append_assoc, List.singleton_append,
        infix_append_cons_iff hsep, ih (by simp)]
      exact (List.exists_mem_cons_iff _ _ _).symm

end Separated

open ScopedPrograms LibraryCalls WrapperObjects WrapperClasses

/-! ## The list of the server -/

def comma : UInt8 := 44

/-- The comma-separated elements of a list. -/
def elements (list : Bytes) : List Bytes := list.splitOn comma

theorem infix_iff_elements {key : Bytes} (hsep : comma ∉ key) (list : Bytes) :
    key <:+: list ↔ ∃ name ∈ elements list, key <:+: name := by
  have h := infix_intercalate_iff hsep (List.splitOn_ne_nil comma list)
  rwa [List.intercalate_splitOn] at h

variable (session : ℕ) (username list : Bytes) (onNull : Bool) (w : World)

/-- The answer for a list: is there an element with the keyword somewhere in it? -/
theorem isAuthSupported_value {key : Bytes} (hsep : comma ∉ key) :
    (Session.isAuthSupported key session username (some list) onNull w).1 =
      .ok (decide (∃ name ∈ elements list, key <:+: name)) := by
  have hvalue : (Session.isAuthSupported key session username (some list) onNull w).1 =
      .ok (decide (key <:+: list)) := rfl
  rw [hvalue, decide_eq_decide.mpr (infix_iff_elements hsep list)]

/-- Both methods answer whether their method is an element of the list. -/
structure Recognizes : Prop where
  password : (Session.isPasswordAuthSupported session username (some list) onNull w).1 =
    .ok (decide (bytes "password" ∈ elements list))
  publickey : (Session.isPubkeyAuthSupported session username (some list) onNull w).1 =
    .ok (decide (bytes "publickey" ∈ elements list))

/-- No element contains `password` unless `password` is an element, and some element contains
`pubkey`, which `publickey` does not, just when `publickey` is an element. -/
structure Unmistakable (list : Bytes) : Prop where
  password : bytes "password" ∈ elements list ∨
    ∀ name ∈ elements list, ¬ bytes "password" <:+: name
  publickey : bytes "publickey" ∈ elements list ↔
    ∃ name ∈ elements list, bytes "pubkey" <:+: name

example : ¬ bytes "pubkey" <:+: bytes "publickey" := by decide

theorem comma_notMem_password : comma ∉ bytes "password" := by decide

theorem comma_notMem_pubkey : comma ∉ bytes "pubkey" := by decide

/-- For every user name and list, both answers are right if and only if the list is
unmistakable. -/
theorem recognizes_iff : Recognizes session username list onNull w ↔ Unmistakable list := by
  have hpassword := isAuthSupported_value session username list onNull w comma_notMem_password
  have hpubkey := isAuthSupported_value session username list onNull w comma_notMem_pubkey
  constructor
  · rintro ⟨h, h'⟩
    have hp := Except.ok.inj (hpassword.symm.trans h)
    have hk := Except.ok.inj (hpubkey.symm.trans h')
    rw [decide_eq_decide] at hp hk
    refine ⟨?_, hk.symm⟩
    by_cases hmem : bytes "password" ∈ elements list
    · exact .inl hmem
    · refine .inr fun name hname hinfix => hmem (hp.mp ⟨name, hname, hinfix⟩)
  · rintro ⟨h, h'⟩
    refine ⟨hpassword.trans ?_, hpubkey.trans ?_⟩
    · congr 1
      rw [decide_eq_decide]
      rcases h with h | h
      · exact iff_of_true ⟨_, h, List.infix_rfl⟩ h
      · refine iff_of_false ?_ fun hmem => h _ hmem List.infix_rfl
        rintro ⟨name, hname, hinfix⟩
        exact h name hname hinfix
    · congr 1
      rw [decide_eq_decide]
      exact h'.symm

/-- A server that offers public keys only, and one with a method that has `password` in its
name. -/
theorem lists_not_recognized :
    ¬ Recognizes 0 [] (bytes "publickey") false ⟨⟨[], [], 0, 0⟩, none⟩ ∧
      ¬ Recognizes 0 [] (bytes "publickey,otp-password") false ⟨⟨[], [], 0, 0⟩, none⟩ := by
  refine ⟨fun h => ?_, fun h => ?_⟩
  · have hpubkey := h.publickey
    revert hpubkey
    decide
  · have hpassword := h.password
    revert hpassword
    decide

end CloudSsh.MethodLists
