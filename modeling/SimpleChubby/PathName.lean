import Mathlib
import SimpleChubby.Path

/-!
# The grammar of node names

`checkName` scans a name four times: for its first character, its last one, the
alphabet, and two slashes in a row. A `PathName` is what these scans are for, one
component after the other, and `getParentName` drops its last component.
-/

namespace SimpleChubby

open Separated

/-- A character of a component. -/
def nameChar (c : Char) : Bool := c.isAlphanum || c == '_'

/-- A node name by its components. -/
structure PathName where
  components : List Str
  ne_nil : components ≠ []
  ok : ∀ component ∈ components, component ≠ [] ∧ ∀ c ∈ component, nameChar c = true

namespace PathName

/-- Each component with a slash in front of it. -/
def text (p : PathName) : Str := glue '/' p.components

/-- The path without its last component; `none` if the parent is the root. -/
def parent (p : PathName) : Option PathName :=
  if h : p.components.dropLast = [] then none
  else some ⟨p.components.dropLast, h, fun c hc => p.ok c (List.dropLast_subset _ hc)⟩

end PathName

/-! ## The alphabet -/

theorem nameChar_slash {c : Char} (h : nameChar c = true) : c ≠ '/' := by
  rintro rfl
  exact absurd h (by decide)

theorem checkChar_iff {c : Char} : checkChar c = true ↔ c = '/' ∨ nameChar c = true := by
  constructor
  · intro h
    have hall : validChars.all (fun c => decide (c = '/' ∨ nameChar c = true)) = true := by decide
    exact of_decide_eq_true (List.all_eq_true.mp hall c (List.contains_iff_mem.mp h))
  · rintro (rfl | h)
    · decide
    · have hsmall : c.toNat < 128 := by
        simp only [nameChar, Char.isAlphanum, Char.isAlpha, Char.isUpper, Char.isLower,
          Char.isDigit, Bool.or_eq_true, Bool.and_eq_true, decide_eq_true_eq, beq_iff_eq] at h
        rcases h with ((h | h) | h) | rfl
        · exact Nat.lt_of_le_of_lt (UInt32.le_iff_toNat_le.mp h.2) (by decide)
        · exact Nat.lt_of_le_of_lt (UInt32.le_iff_toNat_le.mp h.2) (by decide)
        · exact Nat.lt_of_le_of_lt (UInt32.le_iff_toNat_le.mp h.2) (by decide)
        · decide
      have hall : ∀ n < 128, nameChar (Char.ofNat n) = true → checkChar (Char.ofNat n) = true := by
        decide +kernel
      have hc := hall c.toNat hsmall
      rw [Char.ofNat_toNat] at hc
      exact hc h

/-! ## Two slashes in a row -/

theorem hasDoubleSlash_cons {c : Char} (hc : c ≠ '/') (s : Str) :
    hasDoubleSlash (c :: s) = hasDoubleSlash s := by
  rw [hasDoubleSlash.eq_def]
  split
  · next h => exact absurd (List.cons.inj h).1 hc
  · next h =>
    obtain ⟨_, rfl⟩ := List.cons.inj h
    rfl
  · next h => cases h

theorem hasDoubleSlash_slash {c : Char} (hc : c ≠ '/') (s : Str) :
    hasDoubleSlash ('/' :: c :: s) = hasDoubleSlash s := by
  rw [hasDoubleSlash.eq_def]
  split
  · next h => exact absurd (List.cons.inj (List.cons.inj h).2).1 hc
  · next h =>
    obtain ⟨_, rfl⟩ := List.cons.inj h
    exact hasDoubleSlash_cons hc s
  · next h => cases h

theorem hasDoubleSlash_append (a b : Str) : hasDoubleSlash (a ++ '/' :: '/' :: b) = true := by
  induction a with
  | nil => rfl
  | cons c a ih =>
    rw [List.cons_append, hasDoubleSlash.eq_def]
    split
    · rfl
    · next h =>
      obtain ⟨_, rfl⟩ := List.cons.inj h
      exact ih
    · next h => cases h

theorem hasDoubleSlash_skip {token : Str} (h : '/' ∉ token) (s : Str) :
    hasDoubleSlash (token ++ s) = hasDoubleSlash s := by
  induction token with
  | nil => rfl
  | cons c token ih =>
    have hc : c ≠ '/' := by
      rintro rfl
      exact h List.mem_cons_self
    rw [List.cons_append, hasDoubleSlash_cons hc]
    exact ih fun hm => h (List.mem_cons_of_mem _ hm)

/-- Components that are not empty keep the slashes apart. -/
theorem hasDoubleSlash_glue {l : List Str} (h : ∀ c ∈ l, '/' ∉ c ∧ c ≠ []) :
    hasDoubleSlash (glue '/' l) = false := by
  induction l with
  | nil => rfl
  | cons token rest ih =>
    obtain ⟨htoken, hne⟩ := h token List.mem_cons_self
    obtain ⟨c, cs, rfl⟩ := List.exists_cons_of_ne_nil hne
    have hc : c ≠ '/' := by
      rintro rfl
      exact htoken List.mem_cons_self
    rw [glue_cons, List.cons_append, hasDoubleSlash_slash hc,
      hasDoubleSlash_skip fun hm => htoken (List.mem_cons_of_mem _ hm)]
    exact ih fun t ht => h t (List.mem_cons_of_mem _ ht)

/-! ## Both directions of the grammar -/

theorem PathName.slashes (p : PathName) : ∀ c ∈ p.components, '/' ∉ c ∧ c ≠ [] :=
  fun c hc => ⟨fun hm => nameChar_slash ((p.ok c hc).2 _ hm) rfl, (p.ok c hc).1⟩

/-- A path by what comes before its last component. -/
theorem PathName.text_eq (p : PathName) :
    p.text = glue '/' p.components.dropLast ++ '/' :: p.components.getLast p.ne_nil := by
  rw [← glue_concat, List.dropLast_append_getLast]
  rfl

theorem PathName.nameOk (p : PathName) : NameOk p.text where
  head := by
    obtain ⟨c, rest, hc⟩ := List.exists_cons_of_ne_nil p.ne_nil
    unfold text
    rw [hc]
    rfl
  last := by
    have hlast := p.slashes _ (List.getLast_mem p.ne_nil)
    rw [p.text_eq, List.getLast?_append_of_ne_nil _ (List.cons_ne_nil _ _),
      List.getLast?_cons_of_ne_nil hlast.2]
    intro hcon
    exact hlast.1 (List.mem_of_getLast? hcon)
  chars := by
    intro c hc
    obtain ⟨token, htoken, hmem⟩ := List.mem_flatMap.mp hc
    rcases List.mem_cons.mp hmem with rfl | hmem
    · exact checkChar_iff.mpr (Or.inl rfl)
    · exact checkChar_iff.mpr (Or.inr ((p.ok token htoken).2 c hmem))
  slashes := hasDoubleSlash_glue p.slashes

/-- The components of an accepted name are what lies between its slashes. -/
theorem NameOk.exists_pathName {key : Str} (h : NameOk key) : ∃ p : PathName, p.text = key := by
  obtain ⟨first, rest, hsplit⟩ := List.exists_cons_of_ne_nil (List.splitOn_ne_nil '/' key)
  have hkey := eq_of_splitOn hsplit
  have hparts : ∀ token ∈ first :: rest, '/' ∉ token := by
    rw [← hsplit]
    exact fun token htoken => not_mem_of_splitOn htoken
  have hfirst : first = [] := by
    cases first with
    | nil => rfl
    | cons c cs =>
      have hhead := h.head
      rw [hkey] at hhead
      obtain rfl := Option.some.inj hhead
      exact absurd List.mem_cons_self (hparts _ List.mem_cons_self)
  subst hfirst
  rw [List.nil_append] at hkey
  have hne : rest ≠ [] := by
    rintro rfl
    exact h.ne_nil hkey
  refine ⟨⟨rest, hne, fun token htoken => ⟨?_, fun c hc => ?_⟩⟩, hkey.symm⟩
  · rintro rfl
    obtain ⟨before, after, rfl⟩ := List.append_of_mem htoken
    rw [glue_append, glue_cons, List.nil_append] at hkey
    cases after with
    | nil =>
      -- an empty last component is a slash at the end
      apply h.last
      rw [hkey, glue_nil, List.getLast?_concat]
    | cons t after =>
      -- an empty component before another is a slash too many
      have hdouble := hasDoubleSlash_append (glue '/' before) (t ++ glue '/' after)
      rw [hkey, glue_cons] at h
      rw [h.slashes] at hdouble
      cases hdouble
  · have hmem : c ∈ key := by
      rw [hkey]
      exact List.mem_flatMap.mpr ⟨token, htoken, List.mem_cons_of_mem _ hc⟩
    rcases checkChar_iff.mp (h.chars c hmem) with rfl | hok
    · exact absurd hc (hparts token (List.mem_cons_of_mem _ htoken))
    · exact hok

theorem checkName_pathName {key : Str} : checkName key = true ↔ ∃ p : PathName, p.text = key := by
  rw [checkName_iff]
  constructor
  · exact NameOk.exists_pathName
  · rintro ⟨p, rfl⟩
    exact p.nameOk

/-! ## Parents -/

/-- The backward loop stops at the last slash. -/
theorem parentPos_append {a b : Str} (hb : '/' ∉ b) {n : Nat} (hn : n ≤ b.length) :
    parentPos (a ++ '/' :: b) (a.length + n) = a.length := by
  induction n with
  | zero =>
    rw [Nat.add_zero]
    cases ha : a.length with
    | zero => rfl
    | succ m =>
      unfold parentPos
      rw [← ha, List.getElem?_append_right (Nat.le_refl _), Nat.sub_self, List.getElem?_cons_zero,
        if_pos rfl]
  | succ n ih =>
    have hslash : (a ++ '/' :: b)[a.length + n + 1]? ≠ some '/' := by
      rw [List.getElem?_append_right (by omega), show a.length + n + 1 - a.length = n + 1 by omega,
        List.getElem?_cons_succ]
      exact fun hcon => hb (List.mem_of_getElem? hcon)
    rw [← Nat.add_assoc]
    unfold parentPos
    rw [if_neg hslash]
    exact ih (by omega)

theorem getParentName_append {a b : Str} (hb : '/' ∉ b) :
    getParentName (a ++ '/' :: b) = if a = [] then ['/'] else a := by
  have hlen : (a ++ '/' :: b).length = a.length + b.length + 1 := by
    rw [List.length_append, List.length_cons]
    omega
  unfold getParentName
  simp only [hlen, parentPos_append hb (Nat.le_refl _), List.length_eq_zero_iff, List.take_left']

/-- `getParentName` drops the last component. -/
theorem PathName.getParentName_text (p : PathName) :
    getParentName p.text = (p.parent.map text).getD ['/'] := by
  have hlast := (p.slashes _ (List.getLast_mem p.ne_nil)).1
  rw [p.text_eq, getParentName_append hlast]
  unfold parent
  by_cases h : p.components.dropLast = []
  · rw [if_pos (glue_eq_nil.mpr h), dif_pos h]
    rfl
  · rw [if_neg (mt glue_eq_nil.mp h), dif_neg h]
    rfl

theorem PathName.parent_eq_none {p : PathName} : p.parent = none ↔ p.components.length = 1 := by
  have hpos := List.length_pos_iff.mpr p.ne_nil
  have hlen : p.components.dropLast = [] ↔ p.components.length = 1 := by
    rw [← List.length_eq_zero_iff, List.length_dropLast]
    omega
  rw [← hlen]
  unfold parent
  by_cases h : p.components.dropLast = []
  · exact iff_of_true (dif_pos h) h
  · rw [dif_neg h]
    exact iff_of_false (Option.some_ne_none _) h

theorem PathName.parent_eq_some {p q : PathName} (h : p.parent = some q) :
    q.components = p.components.dropLast ∧ q.text.length < p.text.length := by
  unfold parent at h
  split_ifs at h with hnil
  obtain rfl := Option.some.inj h
  refine ⟨rfl, ?_⟩
  rw [p.text_eq, List.length_append, List.length_cons]
  show (glue '/' p.components.dropLast).length < _
  omega

/-- What `getParentName` does with a path, once and again and again. -/
structure ParentsOf (p : PathName) : Prop where
  top : p.components.length = 1 → getParentName p.text = ['/']
  nested : 1 < p.components.length → ∃ q : PathName, q.components = p.components.dropLast ∧
    getParentName p.text = q.text ∧ checkName q.text = true ∧ q.text.length < p.text.length
  iterate : ∀ i, getParentName^[i] p.text = ['/'] ↔ p.components.length ≤ i

/-- The root is its own parent. -/
theorem getParentName_root (i : Nat) : getParentName^[i] ['/'] = ['/'] :=
  Function.iterate_fixed rfl i

theorem PathName.iterate_parent (p : PathName) (i : Nat) :
    getParentName^[i] p.text = ['/'] ↔ p.components.length ≤ i := by
  induction i generalizing p with
  | zero =>
    have hpos := List.length_pos_iff.mpr p.ne_nil
    exact iff_of_false p.nameOk.ne_root (by omega)
  | succ i ih =>
    rw [Function.iterate_succ_apply, p.getParentName_text]
    cases hparent : p.parent with
    | none =>
      have hone := PathName.parent_eq_none.mp hparent
      exact iff_of_true (getParentName_root i) (by omega)
    | some q =>
      have hlen := congrArg List.length (PathName.parent_eq_some hparent).1
      rw [List.length_dropLast] at hlen
      refine (ih q).trans ?_
      rw [hlen]
      omega

/-- `checkName` accepts exactly the paths, and the parents of a path are its
    prefixes, down to the root. -/
theorem checkName_grammar :
    (∀ key, checkName key = true ↔ ∃ p : PathName, p.text = key) ∧ ∀ p : PathName, ParentsOf p := by
  refine ⟨fun key => checkName_pathName, fun p => ⟨fun htop => ?_, fun hnested => ?_, ?_⟩⟩
  · rw [p.getParentName_text, PathName.parent_eq_none.mpr htop]
    rfl
  · cases hparent : p.parent with
    | none =>
      have hone := PathName.parent_eq_none.mp hparent
      omega
    | some q =>
      obtain ⟨hcomponents, hlt⟩ := PathName.parent_eq_some hparent
      refine ⟨q, hcomponents, ?_, checkName_pathName.mpr ⟨q, rfl⟩, hlt⟩
      rw [p.getParentName_text, hparent]
      rfl
  · exact p.iterate_parent

end SimpleChubby
