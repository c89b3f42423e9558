import Mathlib.Data.List.Basic
import Mathlib.Data.List.TakeWhile

/-!
# Arguments spliced into SQL text

What becomes of an argument that a format string puts between two double
quotes, or prints with `%d`, on its way through `printf` and the SQL tokenizer.
Strings are lists of characters, one for each byte.
-/

namespace SqlText

/-- The bytes `%s` copies: those in front of the first NUL. -/
def cString (s : List Char) : List Char := s.takeWhile (· ≠ Char.ofNat 0)

/-- Read the inside of a double-quoted token: a doubled quote stands for one.
    `none` when a quote closes the token before the end of the text. -/
def undouble : List Char → Option (List Char)
  | [] => some []
  | '"' :: '"' :: rest => (undouble rest).map ('"' :: ·)
  | '"' :: _ => none
  | c :: rest => (undouble rest).map (c :: ·)

/-- The value of the token that `"%s"` makes of `arg`; `none` when the argument
    closes the token early, so that the statement's own text changes. -/
def quoted (arg : List Char) : Option (List Char) := undouble (cString arg)

/-- What `%d` prints of a 64-bit argument: its low 32 bits as a signed number. -/
def printfD (n : UInt64) : Int := n.toUInt32.toInt32.toInt

/-- The text of an integer. -/
def decimal (n : Int) : List Char := (Int.repr n).toList

/-- Names are compared without regard to ASCII case. -/
def sameIdent (a b : List Char) : Bool := a.map Char.toLower == b.map Char.toLower

theorem undouble_of_no_quote {s : List Char} (h : '"' ∉ s) : undouble s = some s := by
  induction s with
  | nil => rfl
  | cons c rest ih =>
    have hc : c ≠ '"' := fun hc => h (hc ▸ List.mem_cons_self)
    have hrest := ih (fun hm => h (List.mem_cons_of_mem _ hm))
    rw [undouble.eq_def]
    split <;> simp_all

theorem quoted_of_no_quote {s : List Char} (h : '"' ∉ s) : quoted s = some (cString s) :=
  undouble_of_no_quote fun hm => h (List.takeWhile_subset _ hm)

theorem cString_of_no_nul {s : List Char} (h : Char.ofNat 0 ∉ s) : cString s = s := by
  refine List.takeWhile_eq_self_iff.mpr fun c hc => ?_
  simp only [decide_eq_true_eq]
  rintro rfl
  exact h hc

/-- Text with neither a quote nor a NUL is carried as it stands. -/
theorem quoted_eq_self {s : List Char} (hq : '"' ∉ s) (hn : Char.ofNat 0 ∉ s) :
    quoted s = some s := by
  rw [quoted_of_no_quote hq, cString_of_no_nul hn]

theorem nul_not_mem_cString (s : List Char) : Char.ofNat 0 ∉ cString s := by
  intro hm
  have hkeep := List.mem_takeWhile_imp hm
  simp at hkeep

/-- Reading a token drops quotes and nothing else. -/
theorem undouble_subset {s v : List Char} (h : undouble s = some v) : v ⊆ s := by
  induction s using undouble.induct generalizing v with
  | case1 =>
    obtain rfl := Option.some.inj h
    exact List.Subset.refl _
  | case2 rest ih =>
    obtain ⟨w, hw, rfl⟩ := Option.map_eq_some_iff.mp h
    exact List.cons_subset_cons _ (List.Subset.trans (ih hw) (List.subset_cons_self _ _))
  | case3 rest hne => cases (undouble.eq_3 rest hne).symm.trans h
  | case4 c rest hpair hquote ih =>
    rw [undouble.eq_4 _ _ hpair hquote] at h
    obtain ⟨w, hw, rfl⟩ := Option.map_eq_some_iff.mp h
    exact List.cons_subset_cons _ (ih hw)

theorem undouble_length {s v : List Char} (h : undouble s = some v) : v.length ≤ s.length := by
  induction s using undouble.induct generalizing v with
  | case1 =>
    obtain rfl := Option.some.inj h
    exact Nat.le_refl _
  | case2 rest ih =>
    obtain ⟨w, hw, rfl⟩ := Option.map_eq_some_iff.mp h
    have hlen := ih hw
    simp only [List.length_cons]
    omega
  | case3 rest hne => cases (undouble.eq_3 rest hne).symm.trans h
  | case4 c rest hpair hquote ih =>
    rw [undouble.eq_4 _ _ hpair hquote] at h
    obtain ⟨w, hw, rfl⟩ := Option.map_eq_some_iff.mp h
    have hlen := ih hw
    simp only [List.length_cons]
    omega

/-- A token that holds a quote has a value that holds one and is shorter. -/
theorem undouble_quote {s v : List Char} (h : undouble s = some v) (hq : '"' ∈ s) :
    '"' ∈ v ∧ v.length < s.length := by
  induction s using undouble.induct generalizing v with
  | case1 => cases hq
  | case2 rest ih =>
    obtain ⟨w, hw, rfl⟩ := Option.map_eq_some_iff.mp h
    have hlen := undouble_length hw
    refine ⟨List.mem_cons_self, ?_⟩
    simp only [List.length_cons]
    omega
  | case3 rest hne => cases (undouble.eq_3 rest hne).symm.trans h
  | case4 c rest hpair hquote ih =>
    rw [undouble.eq_4 _ _ hpair hquote] at h
    obtain ⟨w, hw, rfl⟩ := Option.map_eq_some_iff.mp h
    have hrest : '"' ∈ rest := by
      rcases List.mem_cons.mp hq with rfl | hrest
      · exact (hquote rfl).elim
      · exact hrest
    obtain ⟨hmem, hlen⟩ := ih hw hrest
    refine ⟨List.mem_cons_of_mem _ hmem, ?_⟩
    simp only [List.length_cons]
    omega

/-- Only text with neither a quote nor a NUL is carried as it stands. -/
theorem quoted_eq_self_iff {s : List Char} :
    quoted s = some s ↔ '"' ∉ s ∧ Char.ofNat 0 ∉ s := by
  refine ⟨fun h => ?_, fun h => quoted_eq_self h.1 h.2⟩
  have hlen := undouble_length h
  have hcut : cString s = s :=
    (List.takeWhile_prefix _).eq_of_length_le hlen
  rw [quoted, hcut] at h
  refine ⟨fun hq => ?_, fun hn => ?_⟩
  · have hshort := (undouble_quote h hq).2
    omega
  · rw [← hcut] at hn
    exact nul_not_mem_cString s hn

theorem nul_not_mem_quoted {s v : List Char} (h : quoted s = some v) : Char.ofNat 0 ∉ v :=
  fun hm => nul_not_mem_cString s (undouble_subset h hm)

theorem quote_not_mem_cString {s : List Char} (h : '"' ∉ s) : '"' ∉ cString s :=
  fun hm => h (List.takeWhile_subset _ hm)

/-- An integer is printed with digits and a sign. -/
theorem not_mem_decimal {c : Char} (hdigit : c.isDigit = false) (hminus : c ≠ '-') (n : Int) :
    c ∉ decimal n := by
  have hdigits : ∀ m : Nat, c ∉ Nat.toDigits 10 m := by
    intro m hm
    have hm := Nat.isDigit_of_mem_toDigits (by decide) (by decide) hm
    rw [hdigit] at hm
    cases hm
  unfold decimal
  cases n with
  | ofNat m =>
    have hrepr : (Int.repr (Int.ofNat m)).toList = Nat.toDigits 10 m := by
      simp [Int.repr, Nat.repr]
    rw [hrepr]
    exact hdigits m
  | negSucc m =>
    have hrepr : (Int.repr (Int.negSucc m)).toList = '-' :: Nat.toDigits 10 (m + 1) := by
      simp [Int.repr, Nat.repr]
    rw [hrepr]
    intro hm
    rcases List.mem_cons.mp hm with hc | hm
    · exact hminus hc
    · exact hdigits _ hm

theorem quote_not_mem_decimal (n : Int) : '"' ∉ decimal n :=
  not_mem_decimal (by decide) (by decide) n

theorem nul_not_mem_decimal (n : Int) : Char.ofNat 0 ∉ decimal n :=
  not_mem_decimal (by decide) (by decide) n

end SqlText
