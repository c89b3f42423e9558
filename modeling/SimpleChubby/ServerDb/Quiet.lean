import SimpleChubby.ServerDb.Transactions
import SimpleChubby.ServerDb.Unreliable

/-!
# Calls that leave the store alone

A call of `ServerDBPaxos` is refused where the method of `ServerDB` behind it is,
and that method then has not begun a transaction. What a call that throws has done
is up to the Paxos library; here it is a library whose calls have no effect if they
throw.
-/

namespace SimpleChubby

open Prog

/-- Where the program returns one of the answers `no`, or throws, what `view` shows
    of the state is as it was. -/
def LeavesAlone {δ σ α : Type} (view : δ → σ) (no : α → Prop) (m : Prog Fault δ α) : Prop :=
  ∀ s, wp m (fun a s' => no a → view s' = view s) (fun e s' => e = .exception → view s' = view s) s

/-- The methods leave the database alone where they refuse a call or throw. -/
structure Database.RefusesQuietly {δ σ : Type} (D : Database δ) (view : δ → σ) : Prop where
  checkAndCreate : ∀ name isDir, LeavesAlone view (· = none) (D.checkAndCreate name isDir)
  checkAndOpen : ∀ name, LeavesAlone view (· = none) (D.checkAndOpen name)
  checkAndDelete : ∀ name n, LeavesAlone view (· = false) (D.checkAndDelete name n)
  checkAndRead : ∀ name n, LeavesAlone view (· = none) (D.checkAndRead name n)
  checkAndUpdate : ∀ name n content,
    LeavesAlone view (· = false) (D.checkAndUpdate name n content)
  testAndSetLockOwner : ∀ name n clientId,
    LeavesAlone view (· = false) (D.testAndSetLockOwner name n clientId)
  resetLockOwner : ∀ name n, LeavesAlone view (· = false) (D.resetLockOwner name n)

/-- The library is one through which commands reach the store that `view` shows: a
    call that returns has run its command there, and one that throws has no effect. -/
structure PaxosLib.Applies {δ : Type} (lib : PaxosLib δ) (sq : Engine) (strHash : Str → UInt64)
    (view : δ → Store) : Prop where
  ran : ∀ {param s r s'}, lib.execute param s = .ret r s' →
    ServerdbBackstore.run sq strHash param (view s) = .ret r (view s')
  threw : ∀ {param s s'}, lib.execute param s = .stop .exception s' → view s' = view s

/-! ## The methods of `ServerDBPaxos` -/

section Methods

variable {δ : Type} {lib : PaxosLib δ} {sq : Engine} {strHash : Str → UInt64} {view : δ → Store}

/-- A method of `ServerDBPaxos` that sends the call `op` as the command `param`: `m` is
    the method of `ServerDB` that is run, `enc` makes the result union of its answer and
    `dec` reads that. -/
theorem PaxosLib.Applies.sends (h : lib.Applies sq strHash view) (op : DbOp) {α β : Type}
    {param : ServerPaxosParam} {m : Prog Fault Store α} {f : α → DbResult}
    {enc : α → ServerPaxosResult} {dec : ServerPaxosResult → Prog Fault δ β} {g : α → β}
    {no : β → Prop} (hop : ∀ st, op.run sq strHash st = (m st).map f)
    (hparam : ServerdbBackstore.run sq strHash param = m >>= fun a => pure (enc a))
    (hdec : ∀ a, dec (enc a) = pure (g a)) (hno : ∀ a, no (g a) → DbOp.Refused (f a)) :
    LeavesAlone view no (lib.execute param >>= dec) := by
  intro s
  rw [wp_bind]
  cases hexecute : lib.execute param s with
  | stop e s' =>
    unfold wp
    rw [hexecute]
    rintro rfl
    exact h.threw hexecute
  | ret r s' =>
    have hran := h.ran hexecute
    rw [hparam] at hran
    obtain ⟨a, st, hm, hret⟩ := bind_eq_ret.mp hran
    obtain ⟨rfl, rfl⟩ := Outcome.ret.inj hret
    have hdecoded : wp (dec (enc a)) (fun b s₁ => no b → view s₁ = view s)
        (fun e s₁ => e = .exception → view s₁ = view s) s' := by
      rw [hdec]
      intro hanswer
      have hrun := hop (view s)
      rw [hm] at hrun
      exact refused_store hrun (hno a hanswer)
    unfold wp at hdecoded ⊢
    rw [hexecute]
    exact hdecoded

/-- The calls over such a library leave the store alone where they are refused. -/
theorem PaxosLib.Applies.quiet (h : lib.Applies sq strHash view) :
    (serverDbPaxos lib).RefusesQuietly view where
  checkAndCreate name isDir := by
    refine h.sends (.checkAndCreate name isDir) (fun _ => rfl) rfl (fun _ => rfl) fun r hno => ?_
    cases r with
    | none => rfl
    | some n => cases hno
  checkAndOpen name := by
    refine h.sends (.checkAndOpen name) (fun _ => rfl) rfl (fun _ => rfl) fun r hno => ?_
    cases r with
    | none => rfl
    | some n => cases hno
  checkAndDelete name n :=
    h.sends (.checkAndDelete name (wire n)) (fun _ => rfl) rfl (fun _ => rfl) fun _ hno => hno
  checkAndRead name n := by
    refine h.sends (.checkAndRead name (wire n)) (fun _ => rfl) rfl (fun _ => rfl) fun r hno => ?_
    cases r with
    | none => rfl
    | some contents => cases hno
  checkAndUpdate name n content :=
    h.sends (.checkAndUpdate name (wire n) content) (fun _ => rfl) rfl (fun _ => rfl)
      fun _ hno => hno
  testAndSetLockOwner name n clientId :=
    h.sends (.testAndSetLockOwner name (wire n) clientId) (fun _ => rfl) rfl (fun _ => rfl)
      fun _ hno => hno
  resetLockOwner name n :=
    h.sends (.resetLockOwner name (wire n)) (fun _ => rfl) rfl (fun _ => rfl) fun _ hno => hno

/-! ## A library whose calls may fail -/

/-- The call without its effect on `δ` where it throws. -/
def undone {α : Type} (m : Prog Fault (δ × List Fate) α) : Prog Fault (δ × List Fate) α := fun s =>
  match m s with
  | .ret a s' => .ret a s'
  | .stop .exception s' => .stop .exception (s.1, s'.2)
  | .stop .assertion s' => .stop .assertion s'

/-- The library over which the calls meet the fates listed and have no effect where
    they throw; `leads` says when the replica takes itself for the leader. -/
def failingPaxos (lib : PaxosLib δ) (leads : δ × List Fate → Bool) : PaxosLib (δ × List Fate) where
  execute param := undone ((unreliablePaxos lib).execute param)
  isLeaderAndInitialized := leads

theorem failingPaxos_applies (leads : Store × List Fate → Bool) :
    (failingPaxos (leaderPaxos sq strHash) leads).Applies sq strHash Prod.fst where
  ran {param s r s'} hrun := by
    have hcalled : facing (ServerdbBackstore.run sq strHash param) s = .ret r s' := by
      change undone (facing (ServerdbBackstore.run sq strHash param)) s = _ at hrun
      unfold undone at hrun
      split at hrun
      · next hfacing => exact hfacing.trans hrun
      · cases hrun
      · cases hrun
    exact (facing_eq_ret.mp hcalled).2.1
  threw {param s s'} hrun := by
    change undone (facing (ServerdbBackstore.run sq strHash param)) s = _ at hrun
    unfold undone at hrun
    split at hrun
    · cases hrun
    · cases hrun
      rfl
    · cases hrun

end Methods

end SimpleChubby
