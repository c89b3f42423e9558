import Mathlib.Data.List.Basic
import Mathlib.Tactic.SplitIfs
import SimpleChubby.Lib.Separated

/-!
# Byte strings, node names and directory contents

The `std::string` helpers shared by the service logic and the database:
`checkChar`, `checkName` and `getParentName` (`server/serverimpl.cc:116-130,819-846`,
the last one also in `server/serverdb.cc:32-46`), and `dirContentCreate` and
`dirContentDelete` (`server/serverdb.cc:48-71`).
-/

namespace SimpleChubby

/-- A `std::string`, one `Char` for each byte. -/
abbrev Str := List Char

/-- The `while` loop of `getParentName`: the greatest index at most `pos` that
    holds a slash, and 0 when the loop runs down to the first character. -/
def parentPos (key : Str) : Nat → Nat
  | 0 => 0
  | pos + 1 => if key[pos + 1]? = some '/' then pos + 1 else parentPos key pos

/-- `getParentName`. For the empty key the loop leaves `pos = -1`, and the
    substring of that length is the whole key. -/
def getParentName (key : Str) : Str :=
  match key.length with
  | 0 => key
  | n + 1 =>
    let pos := parentPos key n
    if pos = 0 then ['/'] else key.take pos

/-- The characters `checkChar` searches. -/
def validChars : Str :=
  "_/0123456789abcdefghijklmnopqrstuvwxyzABCDEFGHIJKLMNOPQRSTUVWXYZ".toList

/-- `checkChar`. -/
def checkChar (c : Char) : Bool := validChars.contains c

/-- `key.find("//") != npos`. -/
def hasDoubleSlash : Str → Bool
  | '/' :: '/' :: _ => true
  | _ :: rest => hasDoubleSlash rest
  | [] => false

/-- `checkName`. Reading `key[0]` of an empty string gives NUL, so an empty
    key is refused by the first test. -/
def checkName (key : Str) : Bool :=
  if key.head? ≠ some '/' then false
  else if key.getLast? = some '/' then false
  else if key.any (fun c => !checkChar c) then false
  else if hasDoubleSlash key then false
  else true

/-- `dirContentCreate`. -/
def dirContentCreate (content node : Str) : Str := content ++ '|' :: node

/-- `dirContentDelete`: `std::getline` splits at every bar; the empty tokens
    and the tokens equal to `node` are dropped, the others are joined again. -/
def dirContentDelete (content node : Str) : Str :=
  ((content.splitOn '|').filter (fun token => token ≠ [] ∧ token ≠ node)).flatMap ('|' :: ·)

/-! ## Names -/

/-- What the code relies on of a name that `checkName` accepts. -/
structure NameOk (key : Str) : Prop where
  head : key.head? = some '/'
  last : key.getLast? ≠ some '/'
  chars : ∀ c ∈ key, checkChar c = true
  slashes : hasDoubleSlash key = false

theorem checkName_iff {key : Str} : checkName key = true ↔ NameOk key := by
  unfold checkName
  constructor
  · intro h
    split_ifs at h with h1 h2 h3 h4
    exact ⟨not_not.mp h1, h2, by simpa using h3, by simpa using h4⟩
  · rintro ⟨h1, h2, h3, h4⟩
    have h5 : key.any (fun c => !checkChar c) = false := by simpa using h3
    simp [h1, h2, h5, h4]

theorem NameOk.ne_nil {key : Str} (h : NameOk key) : key ≠ [] := by
  rintro rfl
  simpa using h.head

theorem NameOk.ne_root {key : Str} (h : NameOk key) : key ≠ ['/'] := by
  rintro rfl
  exact h.last rfl

theorem NameOk.bar {key : Str} (h : NameOk key) : '|' ∉ key := by
  intro hm
  have hc := h.chars _ hm
  exact absurd hc (by decide)

theorem NameOk.quote {key : Str} (h : NameOk key) : '"' ∉ key := by
  intro hm
  have hc := h.chars _ hm
  exact absurd hc (by decide)

theorem NameOk.nul {key : Str} (h : NameOk key) : Char.ofNat 0 ∉ key := by
  intro hm
  have hc := h.chars _ hm
  exact absurd hc (by decide)

theorem parentPos_le (key : Str) : ∀ pos, parentPos key pos ≤ pos
  | 0 => Nat.le_refl 0
  | pos + 1 => by
    unfold parentPos
    split
    · exact Nat.le_refl _
    · exact Nat.le_succ_of_le (parentPos_le key pos)

/-- The parent of a nonempty name is the root or a proper, nonempty prefix. -/
theorem getParentName_cases {key : Str} (h : key ≠ []) :
    getParentName key = ['/'] ∨
      ∃ pos, 0 < pos ∧ pos < key.length ∧ getParentName key = key.take pos := by
  unfold getParentName
  cases hn : key.length with
  | zero => exact absurd (List.length_eq_zero_iff.mp hn) h
  | succ n =>
    have hle := parentPos_le key n
    by_cases hp : parentPos key n = 0
    · left
      simp [hp]
    · right
      exact ⟨parentPos key n, Nat.pos_of_ne_zero hp, by omega, by simp [hp]⟩

theorem getParentName_ne {key : Str} (h : NameOk key) : getParentName key ≠ key := by
  rcases getParentName_cases h.ne_nil with hp | ⟨pos, _, hlt, hp⟩
  · rw [hp]
    exact h.ne_root.symm
  · rw [hp]
    intro heq
    have hlen := congrArg List.length heq
    rw [List.length_take] at hlen
    omega

/-- What a token spliced into SQL needs of a parent's name: it starts with a
    slash and has only characters of the child's name. -/
theorem getParentName_head {key : Str} (h : NameOk key) : (getParentName key).head? = some '/' := by
  rcases getParentName_cases h.ne_nil with hp | ⟨pos, hpos, _, hp⟩
  · rw [hp]
    rfl
  · rw [hp, List.head?_take, if_neg (by omega)]
    exact h.head

theorem getParentName_chars {key : Str} (h : NameOk key) :
    ∀ c ∈ getParentName key, checkChar c = true := by
  intro c hc
  rcases getParentName_cases h.ne_nil with hp | ⟨pos, _, _, hp⟩
  · rw [hp, List.mem_singleton] at hc
    subst hc
    decide
  · rw [hp] at hc
    exact h.chars c (List.mem_of_mem_take hc)

/-! ## Directory contents -/

/-- The content of a directory whose children are `names`. -/
def dirContent (names : List Str) : Str := names.flatMap ('|' :: ·)

theorem dirContentCreate_dirContent (names : List Str) (node : Str) :
    dirContentCreate (dirContent names) node = dirContent (names ++ [node]) := by
  simp [dirContentCreate, dirContent]

theorem dirContent_eq_nil {names : List Str} : dirContent names = [] ↔ names = [] :=
  Separated.glue_eq_nil

theorem dirContentDelete_keep (content node : Str) :
    dirContentDelete content node =
      Separated.keep '|' (fun token => decide (token ≠ node)) content := by
  unfold dirContentDelete Separated.keep Separated.pieces
  rw [List.filter_filter]
  refine congrArg _ (List.filter_congr fun token _ => ?_)
  rw [Bool.decide_and, Bool.and_comm]

theorem dirContentDelete_dirContent {names : List Str} (h : ∀ n ∈ names, '|' ∉ n ∧ n ≠ [])
    (node : Str) :
    dirContentDelete (dirContent names) node = dirContent (names.filter (· ≠ node)) := by
  rw [dirContentDelete_keep]
  show dirContent ((Separated.pieces '|' (Separated.glue '|' names)).filter _) = _
  rw [Separated.pieces_glue h]

/-- Deleting a token brings no new character but the bar. -/
theorem mem_dirContentDelete {content node : Str} {c : Char}
    (h : c ∈ dirContentDelete content node) : c = '|' ∨ c ∈ content := by
  obtain ⟨token, htoken, hmem⟩ := List.mem_flatMap.mp h
  rcases List.mem_cons.mp hmem with hbar | hmem
  · exact Or.inl hbar
  · exact Or.inr (Separated.mem_of_splitOn (List.mem_filter.mp htoken).1 hmem)

end SimpleChubby
