import Mathlib.Data.List.Basic
import Mathlib.Tactic.SplitIfs

/-!
# Taking a prefix off a list of chunks

A queue of chunks is written to a stream piece by piece. `consume cs n` is what
is left of the queue when `n` elements of it have gone: the chunks of which
something is left, and how much of the first of them has gone.
-/

namespace Chunks

variable {α : Type}

/-- The chunks left when `n` elements have gone, and how many of these were of
    the first chunk left. -/
def consume : List (List α) → Nat → List (List α) × Nat
  | [], n => ([], n)
  | c :: rest, n => if c.length ≤ n then consume rest (n - c.length) else (c :: rest, n)

variable {cs : List (List α)} {n : Nat}

/-- What has gone is whole chunks, and the beginning of the first one left. -/
theorem consume_split (cs : List (List α)) (n : Nat) :
    ∃ gone, cs = gone ++ (consume cs n).1 ∧ n = gone.flatten.length + (consume cs n).2 := by
  induction cs generalizing n with
  | nil => exact ⟨[], rfl, by simp [consume]⟩
  | cons c rest ih =>
    by_cases hc : c.length ≤ n
    · obtain ⟨gone, hrest, hn⟩ := ih (n - c.length)
      rw [consume, if_pos hc]
      refine ⟨c :: gone, by rw [List.cons_append, ← hrest], ?_⟩
      rw [List.flatten_cons, List.length_append]
      omega
    · rw [consume, if_neg hc]
      exact ⟨[], rfl, by simp⟩

/-- The first chunk left has not gone as a whole. -/
theorem consume_lt {c : List α} {rest : List (List α)} (h : (consume cs n).1 = c :: rest) :
    (consume cs n).2 < c.length := by
  induction cs generalizing n with
  | nil => cases h
  | cons c' cs ih =>
    by_cases hc : c'.length ≤ n
    · rw [consume, if_pos hc] at h ⊢
      exact ih h
    · rw [consume, if_neg hc] at h ⊢
      cases h
      omega

/-- When nothing is left, no more has gone than there was. -/
theorem consume_nil (h : (consume cs n).1 = []) (hn : n ≤ cs.flatten.length) :
    (consume cs n).2 = 0 := by
  obtain ⟨gone, hgone, hlen⟩ := consume_split cs n
  rw [h, List.append_nil] at hgone
  rw [hgone] at hn
  omega

/-- The elements that have gone are those of the whole chunks that have, and of
    the first one left. -/
theorem take_flatten (cs : List (List α)) (n : Nat) :
    ∃ gone, cs = gone ++ (consume cs n).1 ∧
      cs.flatten.take n = gone.flatten ++ (consume cs n).1.flatten.take (consume cs n).2 := by
  obtain ⟨gone, hgone, hlen⟩ := consume_split cs n
  refine ⟨gone, hgone, ?_⟩
  calc cs.flatten.take n
      = (gone ++ (consume cs n).1).flatten.take (gone.flatten.length + (consume cs n).2) := by
        rw [← hgone, ← hlen]
    _ = gone.flatten ++ (consume cs n).1.flatten.take (consume cs n).2 := by
        rw [List.flatten_append, List.take_length_add_append]

end Chunks
