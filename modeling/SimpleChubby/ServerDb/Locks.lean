import Mathlib.Logic.Function.Basic
import SimpleChubby.ServerDb.Rows

/-!
# The lock columns behind the replicated database

What the service logic can learn of locks from its database is a table: for
each node its instance number and lock owner. Each call of `ServerDBPaxos` on a
leader whose Paxos calls succeed is described by how it changes that table. An
instance number reaches the back store through an `unsigned` field.
-/

namespace SimpleChubby

open SqlText

/-- An instance number after its way through an `unsigned` field. -/
def wire (n : UInt64) : UInt64 := n.toUInt32.toUInt64

/-- The lock columns of a node. -/
structure NodeLock where
  instanceNumber : UInt64
  owner : Str
  deriving DecidableEq, Repr

/-- The lock columns of a row. -/
def FsRow.lock (r : FsRow) : NodeLock := ⟨UInt64.ofInt r.instanceNumber, r.lockOwner⟩

/-- The table of lock columns. -/
def Store.lock (st : Store) (name : Str) : Option NodeLock := (st.row name).map FsRow.lock

section Table

variable {st : Store} {name : Str}

theorem Store.lock_of_row {r : FsRow} (h : st.row name = some r) :
    st.lock name = some r.lock := by
  simp [Store.lock, h]

theorem Store.lock_of_mem (h : st.Ready) {r : FsRow} (hr : r ∈ st.fs) :
    st.lock r.name = some r.lock :=
  Store.lock_of_row (Store.row_eq h.nodup hr)

/-- New content does not touch the lock columns. -/
theorem Store.lock_withContent (content : Str) (generation checksum : UInt64) :
    (st.update name (FsRow.withContent content generation checksum)).lock = st.lock := by
  have hname : ∀ r, (FsRow.withContent content generation checksum r).name = r.name :=
    fun _ => rfl
  funext g
  unfold Store.lock
  rw [Store.row_update hname]
  split_ifs
  · cases st.row g with
    | none => rfl
    | some r => rfl
  · rfl

/-- Changing the lock columns of a row. -/
theorem Store.lock_update (f : FsRow → FsRow) {r : FsRow} (hname : ∀ r, (f r).name = r.name)
    (hrow : st.row name = some r) :
    (st.update name f).lock = Function.update st.lock name (some (f r).lock) := by
  funext g
  unfold Store.lock
  rw [Store.row_update hname]
  by_cases hg : g = name
  · subst hg
    simp [hrow]
  · simp [hg]

theorem Store.lock_create {isDir : Bool} {n : UInt64} (h : st.row name = none) :
    (st.create name isDir n).lock =
      Function.update st.lock name (some (st.newRow name isDir n).lock) := by
  funext g
  unfold Store.lock
  rw [Store.row_create h]
  by_cases hg : g = name
  · subst hg
    simp
  · simp [hg]

theorem Store.lock_remove : (st.remove name).lock = Function.update st.lock name none := by
  funext g
  unfold Store.lock
  rw [Store.row_remove]
  by_cases hg : g = name
  · subst hg
    simp
  · simp [hg]

end Table

/-! ## Client ids -/

/-- A client id as `chubby_client` sends it. -/
def Decimal (clientId : Str) : Prop := clientId ≠ [] ∧ ∀ c ∈ clientId, c.isDigit = true

instance (clientId : Str) : Decidable (Decimal clientId) :=
  decidable_of_iff (clientId ≠ [] ∧ clientId.all Char.isDigit = true) (by simp [Decimal])

namespace Decimal

variable {clientId : Str}

theorem ne_noOwner (h : Decimal clientId) : clientId ≠ noOwner := by
  rintro rfl
  exact absurd (h.2 'e' (by decide)) (by decide)

theorem quote (h : Decimal clientId) : '"' ∉ clientId := by
  intro hm
  exact absurd (h.2 _ hm) (by decide)

/-- No column has a name that starts with a digit. -/
theorem column (h : Decimal clientId) : columnOf clientId = none := by
  obtain ⟨hne, hdigits⟩ := h
  cases clientId with
  | nil => exact absurd rfl hne
  | cons c rest =>
    have hc := hdigits c List.mem_cons_self
    have hlower : c.toLower = c := by
      unfold Char.toLower
      rw [dif_neg]
      intro hupper
      simp only [Char.isDigit, Bool.and_eq_true, decide_eq_true_eq] at hc
      have h1 := UInt32.le_iff_toNat_le.mp hc.2
      have h2 := UInt32.le_iff_toNat_le.mp hupper.1
      have h9 : '9'.val.toNat = 57 := rfl
      have hA : 'A'.val.toNat = 65 := rfl
      omega
    have hletter : ∀ x : Char, x.isDigit = false → x ≠ c := by
      rintro x hx rfl
      rw [hc] at hx
      cases hx
    have hn := hletter 'n' (by decide)
    have hcc := hletter 'c' (by decide)
    have hl := hletter 'l' (by decide)
    have hi := hletter 'i' (by decide)
    have hf := hletter 'f' (by decide)
    have hu := hletter '_' (by decide)
    have hr := hletter 'r' (by decide)
    have ho := hletter 'o' (by decide)
    simp [columnOf, columnNames, sameIdent, hlower, hn, hcc, hl, hi, hf, hu, hr, ho]

/-- A client id is stored as it is passed. -/
theorem textValue (h : Decimal clientId) (r : FsRow) :
    textValue (cString clientId) r = clientId := by
  have hnul : Char.ofNat 0 ∉ clientId := by
    intro hm
    exact absurd (h.2 _ hm) (by decide)
  rw [cString_of_no_nul hnul]
  simp [SimpleChubby.textValue, h.column]

end Decimal

/-! ## The calls of the service -/

section Calls

variable (sq : Engine) (strHash : Str → UInt64) {st db : Store} {name : Str}

/-- The database of a leader whose every Paxos call succeeds. -/
abbrev leaderDb : Database Store := serverDbPaxos (leaderPaxos sq strHash)

/-- The instance number of a node that is created or opened comes back through the wire. -/
theorem leaderDb_checkAndCreate (isDir : Bool) (st : Store) :
    (leaderDb sq strHash).checkAndCreate name isDir st =
      (ServerDb.checkAndCreate sq strHash name isDir st).map (Option.map wire) := by
  show Prog.andThen (Prog.andThen (ServerDb.checkAndCreate sq strHash name isDir) _) _ st = _
  unfold Prog.andThen
  cases ServerDb.checkAndCreate sq strHash name isDir st with
  | stop e st' => rfl
  | ret r st' => cases r <;> rfl

theorem leaderDb_checkAndOpen (st : Store) :
    (leaderDb sq strHash).checkAndOpen name st =
      (ServerDb.checkAndOpen sq name st).map (Option.map wire) := by
  show Prog.andThen (Prog.andThen (ServerDb.checkAndOpen sq name) _) _ st = _
  unfold Prog.andThen
  cases ServerDb.checkAndOpen sq name st with
  | stop e st' => rfl
  | ret r st' => cases r <;> rfl

theorem leaderDb_checkAndRead (n : UInt64) :
    (leaderDb sq strHash).checkAndRead name n = ServerDb.checkAndRead sq name (wire n) := by
  funext st
  show Prog.andThen (Prog.andThen (ServerDb.checkAndRead sq name (wire n)) _) _ st = _
  unfold Prog.andThen
  cases ServerDb.checkAndRead sq name (wire n) st with
  | stop e st' => rfl
  | ret r st' => cases r <;> rfl

/-- The stored result of a call that the wire brings back unchanged. -/
theorem leaderDb_testAndSetLockOwner (n : UInt64) (owner : Str) :
    (leaderDb sq strHash).testAndSetLockOwner name n owner =
      ServerDb.testAndSetLockOwner sq name (wire n) owner := by
  funext st
  show Prog.andThen (Prog.andThen (ServerDb.testAndSetLockOwner sq name (wire n) owner) _) _ st = _
  unfold Prog.andThen
  cases ServerDb.testAndSetLockOwner sq name (wire n) owner st <;> rfl

theorem leaderDb_resetLockOwner (n : UInt64) :
    (leaderDb sq strHash).resetLockOwner name n = ServerDb.resetLockOwner sq name (wire n) := by
  funext st
  show Prog.andThen (Prog.andThen (ServerDb.resetLockOwner sq name (wire n)) _) _ st = _
  unfold Prog.andThen
  cases ServerDb.resetLockOwner sq name (wire n) st <;> rfl

theorem leaderDb_checkAndDelete (n : UInt64) :
    (leaderDb sq strHash).checkAndDelete name n =
      ServerDb.checkAndDelete sq strHash name (wire n) := by
  funext st
  show Prog.andThen (Prog.andThen (ServerDb.checkAndDelete sq strHash name (wire n)) _) _ st = _
  unfold Prog.andThen
  cases ServerDb.checkAndDelete sq strHash name (wire n) st <;> rfl

theorem leaderDb_checkAndUpdate (n : UInt64) (content : Str) :
    (leaderDb sq strHash).checkAndUpdate name n content =
      ServerDb.checkAndUpdate sq strHash name (wire n) content := by
  funext st
  show Prog.andThen (Prog.andThen (ServerDb.checkAndUpdate sq strHash name (wire n) content) _) _
    st = _
  unfold Prog.andThen
  cases ServerDb.checkAndUpdate sq strHash name (wire n) content st <;> rfl

/-- A lock is granted by the database only while it is free, whatever texts the
    store holds. -/
theorem free_of_testAndSet (hname : Plain name) {n : UInt64} {owner : Str}
    (h : (leaderDb sq strHash).testAndSetLockOwner name n owner st = .ret true db) :
    st.lock name = some ⟨wire n, noOwner⟩ := by
  rw [leaderDb_testAndSetLockOwner] at h
  have hwp : Prog.wp (ServerDb.testAndSetLockOwner sq name (wire n) owner)
      (fun done _ => done = true → st.lock name = some ⟨wire n, noOwner⟩) (fun _ _ => True) st := by
    simp only [ServerDb.testAndSetLockOwner, Prog.wp_bind, wp_selectByName hname]
    cases hrow : st.row name with
    | none => simp
    | some r =>
      simp only [Prog.wp_ite, Prog.wp_pure]
      split_ifs with hn hfree
      · simp
      · simp
      · have hlock : st.lock name = some ⟨wire n, noOwner⟩ := by
          rw [Store.lock_of_row hrow, FsRow.lock, not_not.mp hn, not_not.mp hfree]
        exact Prog.wp_of_outcome (P := fun _ => True) trivial (fun _ _ _ _ => hlock)
          fun _ _ _ => trivial
  exact Prog.wp_of_ret hwp h rfl

/-! On a well-formed store no call throws, and a call changes at most the
entry of its own node. -/

/-- How a call ends that creates or opens a node. -/
inductive LockOpens (name : Str) (st : Store) {α : Type} : Outcome Fault Store α → Prop
  | kept {r : α} {db : Store} : db.Ready → db.lock = st.lock → LockOpens name st (.ret r db)
  | created {r : α} {db : Store} {n : UInt64} : db.Ready → st.lock name = none →
      db.lock = Function.update st.lock name (some ⟨n, noOwner⟩) → LockOpens name st (.ret r db)

/-- How a call ends that has nothing to do with locks. -/
inductive LockKeeps (st : Store) {α : Type} : Outcome Fault Store α → Prop
  | kept {r : α} {db : Store} : db.Ready → db.lock = st.lock → LockKeeps st (.ret r db)

/-- How the deletion of a node ends. -/
inductive LockDeletes (name : Str) (n : UInt64) (st : Store) : Outcome Fault Store Bool → Prop
  | refused : LockDeletes name n st (.ret false st)
  | deleted {db : Store} : db.Ready → st.lock name = some ⟨wire n, noOwner⟩ →
      db.lock = Function.update st.lock name none → LockDeletes name n st (.ret true db)
  | crashed {db : Store} : LockDeletes name n st (.stop .assertion db)

/-- How an attempt to lock a node ends. -/
inductive LockTakes (name : Str) (n : UInt64) (owner : Str) (st : Store) :
    Outcome Fault Store Bool → Prop
  | refused : (∀ l, st.lock name = some l → l.instanceNumber = wire n → l.owner ≠ noOwner) →
      LockTakes name n owner st (.ret false st)
  | taken {db : Store} {stored : Str} : db.Ready → st.lock name = some ⟨wire n, noOwner⟩ →
      db.lock = Function.update st.lock name (some ⟨wire n, stored⟩) →
      (Decimal owner → stored = owner) → LockTakes name n owner st (.ret true db)

/-- How the reset of a lock ends. -/
inductive LockResets (name : Str) (n : UInt64) (st : Store) : Outcome Fault Store Bool → Prop
  | refused : (∀ l, st.lock name = some l → l.instanceNumber ≠ wire n) →
      LockResets name n st (.ret false st)
  | reset {db : Store} {owner : Str} : db.Ready → st.lock name = some ⟨wire n, owner⟩ →
      db.lock = Function.update st.lock name (some ⟨wire n, noOwner⟩) →
      LockResets name n st (.ret true db)

variable (hst : st.Ready) (hname : NameOk name)

include hst hname

theorem lock_checkAndCreate (isDir : Bool) :
    LockOpens name st ((leaderDb sq strHash).checkAndCreate name isDir st) := by
  have hends := ServerDb.checkAndCreate_ends sq strHash hst hname isDir
  show LockOpens name st
    (Prog.andThen (Prog.andThen (ServerDb.checkAndCreate sq strHash name isDir) _) _ st)
  unfold Prog.andThen
  cases hrun : ServerDb.checkAndCreate sq strHash name isDir st with
  | stop e db =>
    rw [hrun] at hends
    cases hends
  | ret r db =>
    rw [hrun] at hends
    cases hends with
    | present _ => exact .kept hst rfl
    | noParent _ _ _ => exact .kept hst rfl
    | fileParent _ _ _ _ => exact .kept hst rfl
    | top hrow _ _ =>
      have hnone : st.lock name = none := by rw [Store.lock, hrow]; rfl
      exact .created (hst.create hname hrow isDir _) hnone (Store.lock_create hrow)
    | nested hrow _ hp _ _ =>
      have hnone : st.lock name = none := by rw [Store.lock, hrow]; rfl
      have hquote := ServerDb.no_quote_cons (hst.contents _ (Store.row_mem hp)) hname
      exact .created ((hst.create hname hrow isDir _).withContent hquote _ _) hnone
        ((Store.lock_withContent _ _ _).trans (Store.lock_create hrow))

theorem lock_checkAndOpen : LockOpens name st ((leaderDb sq strHash).checkAndOpen name st) := by
  show LockOpens name st (Prog.andThen (Prog.andThen (ServerDb.checkAndOpen sq name) _) _ st)
  unfold Prog.andThen
  rw [ServerDb.checkAndOpen_eq sq hname]
  exact .kept hst rfl

theorem lock_checkAndRead (n : UInt64) :
    LockKeeps st ((leaderDb sq strHash).checkAndRead name n st) := by
  obtain ⟨r, hr⟩ : ∃ r, ServerDb.checkAndRead sq name (wire n) st = .ret r st :=
    ServerDb.checkAndRead_store sq hname (wire n)
  show LockKeeps st (Prog.andThen (Prog.andThen (ServerDb.checkAndRead sq name (wire n)) _) _ st)
  unfold Prog.andThen
  rw [hr]
  exact .kept hst rfl

theorem lock_checkAndUpdate (n : UInt64) {content : Str} (hquote : '"' ∉ content) :
    LockKeeps st ((leaderDb sq strHash).checkAndUpdate name n content st) := by
  rw [leaderDb_checkAndUpdate]
  have hends := ServerDb.checkAndUpdate_ends sq strHash hst hname (wire n) hquote
  generalize ServerDb.checkAndUpdate sq strHash name (wire n) content st = o at hends
  cases hends with
  | refused _ => exact .kept hst rfl
  | updated hrow hn =>
    exact .kept (hst.withContent hquote _ _) (Store.lock_withContent _ _ _)

theorem lock_checkAndDelete (n : UInt64) :
    LockDeletes name n st ((leaderDb sq strHash).checkAndDelete name n st) := by
  rw [leaderDb_checkAndDelete]
  have hends := ServerDb.checkAndDelete_ends sq strHash hst hname (wire n)
  have hlock : ∀ r, st.row name = some r → r.lockOwner = noOwner →
      UInt64.ofInt r.instanceNumber = wire n → st.lock name = some ⟨wire n, noOwner⟩ := by
    intro r hrow howner hn
    rw [Store.lock_of_row hrow, FsRow.lock, howner, hn]
  generalize ServerDb.checkAndDelete sq strHash name (wire n) st = o at hends
  cases hends with
  | absent _ => exact .refused
  | refused _ _ => exact .refused
  | badParent _ _ _ => exact .crashed
  | top hrow howner hn _ _ => exact .deleted hst.remove (hlock _ hrow howner hn) Store.lock_remove
  | nested hrow howner hn _ _ hp _ =>
    have hquote := ServerDb.no_quote_delete (hst.contents _ (Store.row_mem hp)) name
    exact .deleted (hst.remove.withContent hquote _ _) (hlock _ hrow howner hn)
      ((Store.lock_withContent _ _ _).trans Store.lock_remove)

theorem lock_testAndSetLockOwner (n : UInt64) {owner : Str} (hquote : '"' ∉ owner) :
    LockTakes name n owner st ((leaderDb sq strHash).testAndSetLockOwner name n owner st) := by
  rw [leaderDb_testAndSetLockOwner]
  have hends := ServerDb.testAndSetLockOwner_ends sq hst hname (wire n) hquote
  generalize ServerDb.testAndSetLockOwner sq name (wire n) owner st = o at hends
  cases hends with
  | refused hwhy =>
    refine .refused fun l hl hn => ?_
    obtain ⟨r, hrow, rfl⟩ := Option.map_eq_some_iff.mp hl
    rcases hwhy r hrow with hne | howner
    · exact absurd hn hne
    · exact howner
  | @locked r hrow hn hfree =>
    have hlock : st.lock name = some ⟨wire n, noOwner⟩ := by
      rw [Store.lock_of_row hrow, FsRow.lock, hn, hfree]
    have hupdate := Store.lock_update
      (FsRow.withOwner owner (UInt64.ofInt r.lockGenerationNumber + 1)) (fun _ => rfl) hrow
    have hrowlock : (FsRow.withOwner owner (UInt64.ofInt r.lockGenerationNumber + 1) r).lock =
        ⟨wire n, textValue (cString owner) r⟩ := by
      rw [← hn]
      rfl
    rw [hrowlock] at hupdate
    exact .taken (hst.withOwner hquote _) hlock hupdate fun hdecimal => hdecimal.textValue r

theorem lock_resetLockOwner (n : UInt64) :
    LockResets name n st ((leaderDb sq strHash).resetLockOwner name n st) := by
  rw [leaderDb_resetLockOwner]
  have hends := ServerDb.resetLockOwner_ends sq hst hname (wire n)
  generalize ServerDb.resetLockOwner sq name (wire n) st = o at hends
  cases hends with
  | refused hwhy =>
    refine .refused fun l hl => ?_
    obtain ⟨r, hrow, rfl⟩ := Option.map_eq_some_iff.mp hl
    exact hwhy r hrow
  | @unlocked r hrow hn =>
    have hlock : st.lock name = some ⟨wire n, r.lockOwner⟩ := by
      rw [Store.lock_of_row hrow, FsRow.lock, hn]
    have hupdate := Store.lock_update FsRow.withoutOwner (fun _ => rfl) hrow
    have hrowlock : r.withoutOwner.lock = ⟨wire n, noOwner⟩ := by
      rw [← hn]
      rfl
    rw [hrowlock] at hupdate
    exact .reset hst.withoutOwner hlock hupdate

end Calls

end SimpleChubby
