import Mathlib.Data.Finset.Basic
import Mathlib.Tactic.SplitIfs

/-!
# Traces of lock actions

What a thread does to a family of locks, action by action. A trace is played on the
set of locks that the thread holds: it takes a lock it does not hold, and releases
one that it does. A balanced trace starts and ends with none.
-/

/-- A lock is taken, or released. -/
inductive LockAction (ι : Type) where
  | lock (i : ι)
  | unlock (i : ι)
  deriving DecidableEq, Repr

namespace LockAction

variable {ι : Type} [DecidableEq ι]

/-- The locks that are held after an action; `none` if a lock is taken twice, or one
    is released that is not held. -/
def play (held : Finset ι) : LockAction ι → Option (Finset ι)
  | .lock i => if i ∈ held then none else some (insert i held)
  | .unlock i => if i ∈ held then some (held.erase i) else none

/-- The locks that are held after a trace. -/
def playAll : List (LockAction ι) → Finset ι → Option (Finset ι)
  | [], held => some held
  | a :: rest, held => (play held a).bind (playAll rest)

/-- Every lock that the trace takes is released once, and no other lock is. -/
def Balanced (l : List (LockAction ι)) : Prop := playAll l ∅ = some ∅

instance (l : List (LockAction ι)) : Decidable (Balanced l) := decEq _ _

variable {l l' : List (LockAction ι)}

theorem play_lock {held : Finset ι} {i : ι} (h : i ∉ held) :
    play held (.lock i) = some (insert i held) := if_neg h

theorem play_unlock {held : Finset ι} {i : ι} (h : i ∈ held) :
    play held (.unlock i) = some (held.erase i) := if_pos h

theorem playAll_append (held : Finset ι) :
    playAll (l ++ l') held = (playAll l held).bind (playAll l') := by
  induction l generalizing held with
  | nil => rfl
  | cons a rest ih =>
    rw [List.cons_append, playAll, playAll, Option.bind_assoc]
    exact congrArg _ (funext ih)

theorem balanced_nil : Balanced ([] : List (LockAction ι)) := rfl

theorem Balanced.append (h : Balanced l) (h' : Balanced l') : Balanced (l ++ l') := by
  unfold Balanced
  rw [playAll_append, h]
  exact h'

/-- A lock is taken and released. -/
theorem balanced_pair (i : ι) : Balanced [.lock i, .unlock i] := by
  unfold Balanced
  rw [playAll, play_lock (Finset.notMem_empty i), Option.bind_some, playAll,
    play_unlock (Finset.mem_insert_self i ∅), Finset.erase_insert (Finset.notMem_empty i)]
  rfl

/-- A lock that is taken at the end is left held. -/
theorem Balanced.not_lock (h : Balanced l) (i : ι) : ¬ Balanced (l ++ [.lock i]) := by
  unfold Balanced
  rw [playAll_append, h, Option.bind_some, playAll, play_lock (Finset.notMem_empty i)]
  exact fun hcon => Finset.insert_ne_empty i ∅ (Option.some.inj hcon)

end LockAction
