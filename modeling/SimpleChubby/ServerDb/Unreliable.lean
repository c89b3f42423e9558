import SimpleChubby.ServerDb.Calls
import SimpleChubby.ServerDb.Locks

/-!
# A Paxos library that may fail

`PaxosLib::execute` throws when the command does not come through, and then the
command may have been run or not. What becomes of the calls to come is a list
beside the database, so one state says which calls throw; a program that reads
the database only is then a program that each call faces with its fate.
-/

namespace SimpleChubby

open Prog

/-- What becomes of a call. -/
inductive Fate where
  | answered
  /-- The call throws, and its command is not run. -/
  | lost
  /-- The call throws, and its command is run all the same. -/
  | unanswered
  deriving DecidableEq, Repr

section Facing

variable {δ α β : Type}

/-- The fate of the next call. After the list every call is answered. -/
def nextFate (s : δ × List Fate) : Fate := s.2.headD .answered

/-- The end of a call, beside the fates that are left. -/
def beside (fates : List Fate) : Outcome Fault δ α → Outcome Fault (δ × List Fate) α
  | .ret a db => .ret a (db, fates)
  | .stop e db => .stop e (db, fates)

/-- The end of a call whose answer does not come. -/
def withoutAnswer : Outcome Fault δ α → Outcome Fault δ α
  | .ret _ db => .stop .exception db
  | .stop e db => .stop e db

/-- A call that meets its fate. -/
def facing (m : Prog Fault δ α) : Prog Fault (δ × List Fate) α := fun s =>
  match nextFate s with
  | .answered => beside s.2.tail (m s.1)
  | .lost => .stop .exception (s.1, s.2.tail)
  | .unanswered => beside s.2.tail (withoutAnswer (m s.1))

theorem wp_facing {m : Prog Fault δ α} {s : δ × List Fate} {Q : α → δ × List Fate → Prop}
    {F : Fault → δ × List Fate → Prop} :
    wp (facing m) Q F s ↔
      match nextFate s with
      | .answered => wp m (fun a db => Q a (db, s.2.tail)) (fun e db => F e (db, s.2.tail)) s.1
      | .lost => F .exception (s.1, s.2.tail)
      | .unanswered =>
        wp m (fun _ db => F .exception (db, s.2.tail)) (fun e db => F e (db, s.2.tail)) s.1 := by
  unfold wp facing
  cases nextFate s with
  | lost => exact Iff.rfl
  | answered => cases m s.1 <;> exact Iff.rfl
  | unanswered => cases m s.1 <;> exact Iff.rfl

/-- A call that faces its fate returns just if it is answered and returns. -/
theorem facing_eq_ret {m : Prog Fault δ α} {s s' : δ × List Fate} {a : α} :
    facing m s = .ret a s' ↔
      nextFate s = .answered ∧ m s.1 = .ret a s'.1 ∧ s'.2 = s.2.tail := by
  unfold facing
  cases nextFate s with
  | lost => simp
  | answered => cases h : m s.1 <;> simp [beside, Prod.ext_iff, eq_comm, and_assoc]
  | unanswered => cases h : m s.1 <;> simp [beside, withoutAnswer]

/-- Reading the answer of a call may throw, but does not touch the state. -/
theorem facing_bind {m : Prog Fault δ α} {k : α → Prog Fault δ β}
    {k' : α → Prog Fault (δ × List Fate) β}
    (h : ∀ a, (∃ b, k a = pure b ∧ k' a = pure b) ∨
      k a = halt .exception ∧ k' a = halt .exception) :
    facing m >>= k' = facing (m >>= k) := by
  funext s
  have hrest : ∀ a (db : δ) fates, k' a (db, fates) = beside fates (k a db) ∧
      withoutAnswer (k a db) = .stop .exception db := by
    intro a db fates
    rcases h a with ⟨b, hk, hk'⟩ | ⟨hk, hk'⟩
    · rw [hk, hk']
      exact ⟨rfl, rfl⟩
    · rw [hk, hk']
      exact ⟨rfl, rfl⟩
  have hbind : (m >>= k) s.1 = match m s.1 with
      | .ret a db => k a db
      | .stop e db => .stop e db := by
    show andThen m k s.1 = _
    unfold andThen
    cases m s.1 <;> rfl
  show andThen (facing m) k' s = facing (m >>= k) s
  unfold andThen facing
  rw [hbind]
  cases nextFate s with
  | lost => rfl
  | answered =>
    cases m s.1 with
    | ret a db => exact (hrest a db s.2.tail).1
    | stop e db => rfl
  | unanswered =>
    cases m s.1 with
    | ret a db => exact congrArg (beside s.2.tail) (hrest a db s.2.tail).2.symm
    | stop e db => rfl

end Facing

/-- The library over which the calls meet the fates listed. -/
def unreliablePaxos {δ : Type} (lib : PaxosLib δ) : PaxosLib (δ × List Fate) where
  execute param := facing (lib.execute param)
  isLeaderAndInitialized s := lib.isLeaderAndInitialized s.1

section Methods

variable {δ : Type} (lib : PaxosLib δ) (name : Str) (n : UInt64)

theorem unreliablePaxos_testAndSetLockOwner (clientId : Str) :
    (serverDbPaxos (unreliablePaxos lib)).testAndSetLockOwner name n clientId =
      facing ((serverDbPaxos lib).testAndSetLockOwner name n clientId) := by
  refine facing_bind fun r => ?_
  cases r with
  | testAndSetLockOwner success => exact Or.inl ⟨success, rfl, rfl⟩
  | _ => exact Or.inr ⟨rfl, rfl⟩

theorem unreliablePaxos_resetLockOwner :
    (serverDbPaxos (unreliablePaxos lib)).resetLockOwner name n =
      facing ((serverDbPaxos lib).resetLockOwner name n) := by
  refine facing_bind fun r => ?_
  cases r with
  | resetLockOwner success => exact Or.inl ⟨success, rfl, rfl⟩
  | _ => exact Or.inr ⟨rfl, rfl⟩

end Methods

end SimpleChubby
