import Mathlib.Data.List.Basic
import Mathlib.Data.List.TakeWhile
import Mathlib.Tactic.SplitIfs

/-!
# Texts of separated pieces

A text in which every piece has a separator in front of it, the pieces that any
text falls into, and a stream that is read piece by piece, as `std::getline` does.
-/

namespace Separated

variable {α : Type} (sep : α)

/-- Every piece with a separator in front of it. -/
def glue (pieces : List (List α)) : List α := pieces.flatMap (sep :: ·)

section Glue

variable {sep}

@[simp] theorem glue_nil : glue sep [] = [] := rfl

theorem glue_cons (piece : List α) (rest : List (List α)) :
    glue sep (piece :: rest) = sep :: (piece ++ glue sep rest) := rfl

theorem glue_append (a b : List (List α)) : glue sep (a ++ b) = glue sep a ++ glue sep b :=
  List.flatMap_append

theorem glue_concat (rest : List (List α)) (piece : List α) :
    glue sep (rest ++ [piece]) = glue sep rest ++ sep :: piece := by
  rw [glue_append, glue_cons, glue_nil, List.append_nil]

theorem glue_eq_nil {pieces : List (List α)} : glue sep pieces = [] ↔ pieces = [] := by
  cases pieces with
  | nil => exact iff_of_true rfl rfl
  | cons piece rest =>
    rw [glue_cons]
    exact iff_of_false (List.cons_ne_nil _ _) (List.cons_ne_nil _ _)

theorem intercalate_eq_glue (head : List α) (rest : List (List α)) :
    [sep].intercalate (head :: rest) = head ++ glue sep rest := by
  induction rest generalizing head with
  | nil => rw [List.intercalate_singleton, glue_nil, List.append_nil]
  | cons piece rest ih =>
    rw [List.intercalate_cons_cons, ih piece, glue_cons, List.append_assoc]
    rfl

end Glue

/-! ## Splitting -/

section Split

variable [DecidableEq α] {sep} {s : List α}

/-- A piece without separators followed by glued ones is split into these. -/
theorem splitOn_append_glue {head : List α} {rest : List (List α)} (hhead : sep ∉ head)
    (hrest : ∀ piece ∈ rest, sep ∉ piece) : (head ++ glue sep rest).splitOn sep = head :: rest := by
  rw [← intercalate_eq_glue]
  refine List.splitOn_intercalate sep (fun piece hpiece => ?_) (List.cons_ne_nil _ _)
  rcases List.mem_cons.mp hpiece with rfl | hpiece
  · exact hhead
  · exact hrest piece hpiece

/-- What a text is split into makes it up. -/
theorem eq_of_splitOn {head : List α} {rest : List (List α)} (h : s.splitOn sep = head :: rest) :
    s = head ++ glue sep rest := by
  rw [← intercalate_eq_glue, ← h, List.intercalate_splitOn]

/-- No part that a text is split into holds the separator. -/
theorem not_mem_of_splitOn {piece : List α} (h : piece ∈ s.splitOn sep) : sep ∉ piece := by
  induction s generalizing piece with
  | nil =>
    rw [List.splitOn_nil, List.mem_singleton] at h
    subst h
    exact List.not_mem_nil
  | cons c s ih =>
    rw [List.splitOn_cons_eq_if_modifyHead] at h
    split_ifs at h with hc
    · rcases List.mem_cons.mp h with rfl | h
      · exact List.not_mem_nil
      · exact ih h
    · obtain ⟨head, rest, hsplit⟩ := List.exists_cons_of_ne_nil (List.splitOn_ne_nil sep s)
      rw [hsplit] at h ih
      rcases List.mem_cons.mp h with rfl | h
      · intro hmem
        rcases List.mem_cons.mp hmem with rfl | hmem
        · exact hc (beq_self_eq_true _)
        · exact ih List.mem_cons_self hmem
      · exact ih (List.mem_cons_of_mem _ h)

theorem mem_of_splitOn {piece : List α} (h : piece ∈ s.splitOn sep) {c : α} (hc : c ∈ piece) :
    c ∈ s := by
  obtain ⟨head, rest, hsplit⟩ := List.exists_cons_of_ne_nil (List.splitOn_ne_nil sep s)
  rw [eq_of_splitOn hsplit]
  rw [hsplit] at h
  rcases List.mem_cons.mp h with rfl | h
  · exact List.mem_append_left _ hc
  · exact List.mem_append_right _ (List.mem_flatMap.mpr ⟨piece, h, List.mem_cons_of_mem _ hc⟩)

end Split

/-! ## The pieces that are not empty -/

section Pieces

variable [DecidableEq α]

/-- The parts between separators that are not empty. -/
def pieces (s : List α) : List (List α) := (s.splitOn sep).filter (· ≠ [])

/-- The pieces that meet a condition, glued together again. -/
def keep (p : List α → Bool) (s : List α) : List α := glue sep ((pieces sep s).filter p)

variable {sep}

theorem pieces_append (a b : List α) :
    pieces sep (a ++ sep :: b) = pieces sep a ++ pieces sep b := by
  unfold pieces
  rw [List.splitOn_append_cons_self, List.filter_append]

theorem pieces_of_not_mem {s : List α} (h : sep ∉ s) : pieces sep s = [s].filter (· ≠ []) := by
  unfold pieces
  rw [List.splitOn_eq_singleton h]

theorem pieces_glue {l : List (List α)} (h : ∀ piece ∈ l, sep ∉ piece ∧ piece ≠ []) :
    pieces sep (glue sep l) = l := by
  have hsplit := splitOn_append_glue List.not_mem_nil fun piece hpiece => (h piece hpiece).1
  rw [List.nil_append] at hsplit
  unfold pieces
  rw [hsplit, List.filter_cons_of_neg (by simp)]
  refine List.filter_eq_self.mpr fun piece hpiece => ?_
  exact decide_eq_true (h piece hpiece).2

theorem mem_pieces {s piece : List α} (h : piece ∈ pieces sep s) : sep ∉ piece ∧ piece ≠ [] := by
  obtain ⟨hmem, hne⟩ := List.mem_filter.mp h
  exact ⟨not_mem_of_splitOn hmem, of_decide_eq_true hne⟩

theorem pieces_keep (p : List α → Bool) (s : List α) :
    pieces sep (keep sep p s) = (pieces sep s).filter p :=
  pieces_glue fun _ hpiece => mem_pieces (List.mem_filter.mp hpiece).1

/-- Two selections are one. -/
theorem keep_keep (p q : List α → Bool) (s : List α) :
    keep sep p (keep sep q s) = keep sep (fun piece => p piece && q piece) s := by
  show glue sep ((pieces sep (keep sep q s)).filter p) = _
  rw [pieces_keep, List.filter_filter]
  rfl

end Pieces

/-! ## Reading a stream -/

/-- A `std::istream` over a text: what has not been read yet, and whether the
    stream is good. -/
structure Stream (α : Type) where
  rest : List α
  good : Bool

/-- `std::stringstream ss(s)`. -/
def Stream.ofList (s : List α) : Stream α := ⟨s, true⟩

section Streams

variable [DecidableEq α]

/-- `std::getline(ss, token, delim)`. It fails if the stream is not good or has
    nothing left; a token that the end of the stream ends leaves it not good. -/
def getline (ss : Stream α) : Option (List α × Stream α) :=
  if ss.good then
    match ss.rest with
    | [] => none
    | _ :: _ =>
      let token := ss.rest.takeWhile (· ≠ sep)
      match ss.rest.dropWhile (· ≠ sep) with
      | [] => some (token, ⟨[], false⟩)
      | _ :: rest => some (token, ⟨rest, true⟩)
  else none

theorem getline_lt {ss ss' : Stream α} {token : List α} (h : getline sep ss = some (token, ss')) :
    ss'.rest.length < ss.rest.length := by
  unfold getline at h
  split_ifs at h
  split at h
  · cases h
  · next c cs hrest =>
    have hdrop := (List.dropWhile_suffix (fun x => decide (x ≠ sep)) (l := ss.rest)).length_le
    split at h
    · cases h
      rw [hrest]
      exact Nat.succ_pos _
    · next d rest hdropped =>
      cases h
      rw [hdropped, List.length_cons] at hdrop
      exact hdrop

/-- `while (std::getline(ss, token, delim))`, where the body takes the token into
    what has been computed so far. -/
def readAll {β : Type} (body : β → List α → β) (acc : β) (ss : Stream α) : β :=
  match _ : getline sep ss with
  | none => acc
  | some (token, ss') => readAll body (body acc token) ss'
termination_by ss.rest.length
decreasing_by exact getline_lt sep ‹_›

variable {sep}

theorem getline_nil (good : Bool) : getline sep ⟨[], good⟩ = none := by
  unfold getline
  split_ifs
  · rfl
  · rfl

/-- The end of the stream ends the last token. -/
theorem getline_last {s : List α} (hs : s ≠ []) (h : sep ∉ s) :
    getline sep (.ofList s) = some (s, ⟨[], false⟩) := by
  have hall : ∀ c ∈ s, decide (c ≠ sep) = true := by
    intro c hc
    rw [decide_eq_true_iff]
    rintro rfl
    exact h hc
  obtain ⟨c, rest, rfl⟩ := List.exists_cons_of_ne_nil hs
  unfold getline Stream.ofList
  simp only [if_true, List.takeWhile_eq_self_iff.mpr hall, List.dropWhile_eq_nil_iff.mpr hall]

/-- A separator ends a token, which may be empty. -/
theorem getline_next {token rest : List α} (h : sep ∉ token) :
    getline sep (.ofList (token ++ sep :: rest)) = some (token, .ofList rest) := by
  have hall : ∀ c ∈ token, decide (c ≠ sep) = true := by
    intro c hc
    rw [decide_eq_true_iff]
    rintro rfl
    exact h hc
  have htake : (token ++ sep :: rest).takeWhile (fun c => decide (c ≠ sep)) = token := by
    rw [List.takeWhile_append_of_pos hall, List.takeWhile_cons_of_neg (by simp), List.append_nil]
  have hdrop : (token ++ sep :: rest).dropWhile (fun c => decide (c ≠ sep)) = sep :: rest := by
    rw [List.dropWhile_append_of_pos hall, List.dropWhile_cons_of_neg (by simp)]
  obtain ⟨c, cs, hcons⟩ := List.exists_cons_of_ne_nil (List.append_ne_nil_of_right_ne_nil token
    (List.cons_ne_nil sep rest))
  unfold getline Stream.ofList
  simp only [if_true, htake, hdrop]
  rw [hcons]

variable {β : Type} {body : β → List α → β}

theorem readAll_none {ss : Stream α} (h : getline sep ss = none) (acc : β) :
    readAll sep body acc ss = acc := by
  rw [readAll]
  split
  · rfl
  · next hsome => cases h.symm.trans hsome

theorem readAll_some {ss ss' : Stream α} {token : List α}
    (h : getline sep ss = some (token, ss')) (acc : β) :
    readAll sep body acc ss = readAll sep body (body acc token) ss' := by
  rw [readAll]
  split
  · next hnone => cases h.symm.trans hnone
  · next hsome =>
    cases h.symm.trans hsome
    rfl

/-- A loop whose body passes over empty tokens reads the pieces of the text. -/
theorem readAll_ofList (hskip : ∀ acc, body acc [] = acc) (acc : β) (s : List α) :
    readAll sep body acc (.ofList s) = (pieces sep s).foldl body acc := by
  -- a token without a piece is an empty one, which the body passes over
  have htoken : ∀ (acc : β) (token : List α),
      ([token].filter (· ≠ [])).foldl body acc = body acc token := by
    intro acc token
    by_cases hempty : token = []
    · subst hempty
      exact (hskip acc).symm
    · rw [List.filter_cons_of_pos (by simpa using hempty)]
      rfl
  induction hn : s.length using Nat.strongRecOn generalizing acc s with
  | ind n ih =>
    by_cases hsep : sep ∈ s
    · obtain ⟨token, rest, rfl, hfirst⟩ := List.eq_append_cons_of_mem hsep
      have hlt : rest.length < n := by
        rw [← hn, List.length_append, List.length_cons]
        omega
      rw [readAll_some (getline_next hfirst), ih _ hlt _ rest rfl, pieces_append,
        List.foldl_append, pieces_of_not_mem hfirst, htoken]
    · rw [pieces_of_not_mem hsep, htoken]
      by_cases hs : s = []
      · subst hs
        have hend : getline sep (.ofList []) = none := getline_nil true
        rw [readAll_none hend, hskip]
      · rw [readAll_some (getline_last hs hsep), readAll_none (getline_nil false)]

end Streams

end Separated
