import Mathlib
import SimpleChubby.ServerDb.Calls
import SimpleChubby.ServerDb.Locks

/-!
# The replicated database and the database itself

A call of `ServerDBPaxos` on a leader whose `execute` succeeds against the same
call of `ServerDB`. The union of a call carries an instance number in an
`unsigned` field, in both directions, so the two agree where the numbers that
decide the call mean the same after that way.
-/

namespace SimpleChubby

/-- Make a call on a database. -/
def DbOp.runOn (db : Database Store) (op : DbOp) : Prog Fault Store DbResult := fun st =>
  match op with
  | .checkAndCreate name isDir => (db.checkAndCreate name isDir st).map .number
  | .checkAndOpen name => (db.checkAndOpen name st).map .number
  | .checkAndDelete name n => (db.checkAndDelete name n st).map .done
  | .checkAndRead name n => (db.checkAndRead name n st).map .contents
  | .checkAndUpdate name n content => (db.checkAndUpdate name n content st).map .done
  | .testAndSetLockOwner name n clientId => (db.testAndSetLockOwner name n clientId st).map .done
  | .resetLockOwner name n => (db.resetLockOwner name n st).map .done
  | .getStates => (db.getStates st).map .states

/-! ## Numbers on the wire -/

/-- The numbers of 32 bits come back as they were sent. -/
theorem wire_eq_iff (n : UInt64) : wire n = n ↔ n.toNat < 2 ^ 32 := by
  rw [← UInt64.toNat_inj]
  have hwire : (wire n).toNat = n.toNat % 2 ^ 32 := by simp [wire]
  rw [hwire]
  constructor
  · intro h
    rw [← h]
    exact Nat.mod_lt _ (by decide)
  · exact Nat.mod_eq_of_lt

/-- A row takes the number and what the wire makes of it alike. -/
def SameNumber (n : UInt64) (row : FsRow) : Prop :=
  UInt64.ofInt row.instanceNumber = n ↔ UInt64.ofInt row.instanceNumber = wire n

instance (n : UInt64) (row : FsRow) : Decidable (SameNumber n row) :=
  inferInstanceAs (Decidable (_ ↔ _))

/-! ## What a call finds -/

section Queries

variable (sq : Engine) (strHash : Str → UInt64)

/-- The node can be created with the number `n`: it does not exist, its parent is
    a directory, and the statements run. -/
def Creatable (fileName : Str) (isDir : Bool) (n : UInt64) (st : Store) : Prop :=
  query sq "name".toList fileName st = .ok none ∧
    ∃ parent, createParent sq fileName st = some parent ∧
      ∃ st', ServerDb.createNode sq strHash fileName isDir n parent st = .ret () st'

/-- The numbers that decide a call mean the same after their way through the wire. -/
def Narrow (st : Store) : DbOp → Prop
  | .checkAndCreate name isDir => ∀ m, st.maxInstanceNumber = some m →
      Creatable sq strHash name isDir (UInt64.ofInt m + 1) st →
        (UInt64.ofInt m + 1).toNat < 2 ^ 32
  | .checkAndOpen name => ∀ row, query sq "instance_number".toList name st = .ok (some row) →
      (UInt64.ofInt row.instanceNumber).toNat < 2 ^ 32
  | .checkAndDelete name n => ∀ row,
      query sq "lock_owner, instance_number, is_directory, content".toList name st =
        .ok (some row) →
      row.lockOwner = noOwner → (row.isDirectory = 0 ∨ row.content = []) → SameNumber n row
  | .checkAndRead name n => ∀ row,
      query sq ("content, instance_number, content_generation_number, ".toList ++
        "lock_generation_number, file_content_checksum, is_directory".toList) name st =
        .ok (some row) → SameNumber n row
  | .checkAndUpdate name n _ => ∀ row,
      query sq "instance_number, content_generation_number".toList name st = .ok (some row) →
      SameNumber n row
  | .testAndSetLockOwner name n _ => ∀ row,
      query sq "instance_number, lock_owner, lock_generation_number".toList name st =
        .ok (some row) →
      row.lockOwner = noOwner → SameNumber n row
  | .resetLockOwner name n => ∀ row,
      query sq "instance_number".toList name st = .ok (some row) → SameNumber n row
  | .getStates => st.fs = []

end Queries

/-! ## Methods that check an instance number -/

/-- Two numbers end such a method alike if they are the same to the row found,
    or the method refuses that row anyway. -/
theorem checked_wire_iff {α : Type} {st : Store} {no : α} {body : FsRow → Outcome Fault Store α}
    {accepts : FsRow → Prop} (hbody : ∀ row, body row = .ret no st ↔ ¬ accepts row) (n : UInt64)
    (found : Except Fault (Option FsRow)) :
    checked st no body (wire n) found = checked st no body n found ↔
      ∀ row, found = .ok (some row) → accepts row → SameNumber n row := by
  rcases found with e | _ | row
  · simp [checked]
  · simp [checked]
  · have hrow : ∀ row', (Except.ok (some row) : Except Fault (Option FsRow)) = .ok (some row') ↔
        row = row' := by simp
    simp only [checked, hrow, forall_eq', SameNumber]
    by_cases hn : UInt64.ofInt row.instanceNumber = n
    · by_cases hw : UInt64.ofInt row.instanceNumber = wire n
      · rw [if_pos hw, if_pos hn]
        exact ⟨fun _ _ => ⟨fun _ => hw, fun _ => hn⟩, fun _ => rfl⟩
      · rw [if_neg hw, if_pos hn, eq_comm, hbody]
        exact ⟨fun hno hyes => absurd hyes hno, fun hsame hyes => hw ((hsame hyes).mp hn)⟩
    · by_cases hw : UInt64.ofInt row.instanceNumber = wire n
      · rw [if_pos hw, if_neg hn, hbody]
        exact ⟨fun hno hyes => absurd hyes hno, fun hsame hyes => hn ((hsame hyes).mpr hw)⟩
      · rw [if_neg hw, if_neg hn]
        exact ⟨fun _ _ => ⟨fun h => absurd h hn, fun h => absurd h hw⟩, fun _ => rfl⟩

section Methods

variable (sq : Engine) (strHash : Str → UInt64) {name : Str} {st : Store}

/-- A program that returns `true` if it returns does not return `false`. -/
theorem ne_false_of_wp {m : Prog Fault Store Bool}
    (h : Prog.wp m (fun done _ => done = true) (fun _ _ => True) st) : m st ≠ .ret false st :=
  fun hrun => absurd (Prog.wp_of_ret h hrun) (by decide)

theorem checkAndRead_wire_iff (n : UInt64) :
    ServerDb.checkAndRead sq name (wire n) st = ServerDb.checkAndRead sq name n st ↔
      Narrow sq strHash st (.checkAndRead name n) := by
  have hbody : ∀ row, (Outcome.ret (some (ServerDb.readRow row)) st : Outcome Fault Store _) =
      .ret none st ↔ ¬ True := by simp
  rw [checkAndRead_checked, checkAndRead_checked]
  refine (checked_wire_iff hbody n _).trans ?_
  simp [Narrow]

theorem checkAndUpdate_wire_iff (n : UInt64) (content : Str) :
    ServerDb.checkAndUpdate sq strHash name (wire n) content st =
        ServerDb.checkAndUpdate sq strHash name n content st ↔
      Narrow sq strHash st (.checkAndUpdate name n content) := by
  have hbody : ∀ row, updateFound sq strHash name content row st = .ret false st ↔ ¬ True := by
    intro row
    rw [not_true_eq_false, iff_false]
    refine ne_false_of_wp (Prog.wp_bind_rest fun _ _ => ?_)
    refine Prog.wp_bind_rest fun _ _ => Prog.wp_bind_rest fun _ _ => ?_
    rfl
  rw [checkAndUpdate_checked, checkAndUpdate_checked]
  refine (checked_wire_iff hbody n _).trans ?_
  simp [Narrow]

theorem testAndSetLockOwner_wire_iff (n : UInt64) (clientId : Str) :
    ServerDb.testAndSetLockOwner sq name (wire n) clientId st =
        ServerDb.testAndSetLockOwner sq name n clientId st ↔
      Narrow sq strHash st (.testAndSetLockOwner name n clientId) := by
  have hbody : ∀ row, lockFound sq name clientId row st = .ret false st ↔
      ¬ row.lockOwner = noOwner := by
    intro row
    unfold lockFound
    by_cases hfree : row.lockOwner = noOwner
    · rw [if_neg (not_not.mpr hfree)]
      refine ⟨fun h => absurd h (ne_false_of_wp (Prog.wp_bind_rest fun _ _ => ?_)),
        fun h => absurd hfree h⟩
      refine Prog.wp_bind_rest fun _ _ => Prog.wp_bind_rest fun _ _ => ?_
      rfl
    · rw [if_pos hfree]
      exact ⟨fun _ => hfree, fun _ => rfl⟩
  rw [testAndSetLockOwner_checked, testAndSetLockOwner_checked]
  exact checked_wire_iff hbody n _

theorem resetLockOwner_wire_iff (n : UInt64) :
    ServerDb.resetLockOwner sq name (wire n) st = ServerDb.resetLockOwner sq name n st ↔
      Narrow sq strHash st (.resetLockOwner name n) := by
  have hbody : ∀ _ : FsRow, unlockFound sq name st = .ret false st ↔ ¬ True := by
    intro _
    rw [not_true_eq_false, iff_false]
    refine ne_false_of_wp (Prog.wp_bind_rest fun _ _ => ?_)
    refine Prog.wp_bind_rest fun _ _ => Prog.wp_bind_rest fun _ _ => ?_
    rfl
  rw [resetLockOwner_checked, resetLockOwner_checked]
  refine (checked_wire_iff hbody n _).trans ?_
  simp [Narrow]

theorem deleteFound_refuses (row : FsRow) :
    deleteFound sq strHash name row st = .ret false st ↔
      ¬ (row.lockOwner = noOwner ∧ (row.isDirectory = 0 ∨ row.content = [])) := by
  unfold deleteFound
  by_cases howner : row.lockOwner = noOwner
  · rw [if_neg (not_not.mpr howner)]
    by_cases hdir : row.isDirectory ≠ 0 ∧ row.content ≠ []
    · rw [if_pos hdir]
      refine ⟨fun _ h => ?_, fun _ => rfl⟩
      rcases h.2 with hfile | hempty
      · exact hdir.1 hfile
      · exact hdir.2 hempty
    · rw [if_neg hdir]
      have haccept : row.isDirectory = 0 ∨ row.content = [] := by
        by_cases hfile : row.isDirectory = 0
        · exact Or.inl hfile
        · exact Or.inr (not_not.mp fun hne => hdir ⟨hfile, hne⟩)
      refine ⟨fun h => absurd h (ne_false_of_wp ?_), fun h => absurd ⟨howner, haccept⟩ h⟩
      by_cases hroot : getParentName name = root
      · rw [if_pos hroot]
        refine Prog.wp_bind_rest fun _ _ => ?_
        rfl
      · rw [if_neg hroot]
        refine Prog.wp_bind_rest fun found st' => ?_
        cases found with
        | none => trivial
        | some par =>
          by_cases hpar : par.isDirectory = 1
          · simp only [hpar, ne_eq, not_true_eq_false, if_false]
            refine Prog.wp_bind_rest fun _ _ => ?_
            rfl
          · simp only [hpar, ne_eq, not_false_eq_true, if_true]
            trivial
  · rw [if_pos howner]
    exact ⟨fun _ h => howner h.1, fun _ => rfl⟩

theorem checkAndDelete_wire_iff (n : UInt64) :
    ServerDb.checkAndDelete sq strHash name (wire n) st =
        ServerDb.checkAndDelete sq strHash name n st ↔
      Narrow sq strHash st (.checkAndDelete name n) := by
  rw [checkAndDelete_checked, checkAndDelete_checked]
  refine (checked_wire_iff (deleteFound_refuses sq strHash) n _).trans ?_
  simp only [Narrow, and_imp]

theorem checkAndOpen_wire_iff :
    (ServerDb.checkAndOpen sq name st).map (Option.map wire) = ServerDb.checkAndOpen sq name st ↔
      Narrow sq strHash st (.checkAndOpen name) := by
  rw [ServerDb.checkAndOpen, selectByName_bind]
  simp only [Narrow, ← wire_eq_iff]
  rcases query sq "instance_number".toList name st with e | _ | row
  · simp [Outcome.map]
  · show Outcome.ret none st = Outcome.ret none st ↔ _
    simp
  · show Outcome.ret (some (wire (UInt64.ofInt row.instanceNumber))) st =
      Outcome.ret (some (UInt64.ofInt row.instanceNumber)) st ↔ _
    simp

/-- The number of a node that is made comes back if it has 32 bits. -/
theorem createNext_wire_iff (isDir : Bool) (parent : Option ServerDb.ParentRow) :
    (ServerDb.createNext sq strHash name isDir parent st).map (Option.map wire) =
        ServerDb.createNext sq strHash name isDir parent st ↔
      ∀ m, st.maxInstanceNumber = some m →
        (∃ st', ServerDb.createNode sq strHash name isDir (UInt64.ofInt m + 1) parent st =
          .ret () st') → (UInt64.ofInt m + 1).toNat < 2 ^ 32 := by
  rw [createNext_eq]
  cases st.maxInstanceNumber with
  | none => simp [Outcome.map]
  | some m =>
    simp only [Option.some.injEq, forall_eq', ← wire_eq_iff]
    cases ServerDb.createNode sq strHash name isDir (UInt64.ofInt m + 1) parent st with
    | ret _ st' => simp [Outcome.map]
    | stop e st' => simp [Outcome.map]

theorem creatable_iff {isDir : Bool} {n : UInt64} {parent : Option ServerDb.ParentRow}
    (hquery : query sq "name".toList name st = .ok none)
    (hparent : createParent sq name st = some parent) :
    Creatable sq strHash name isDir n st ↔
      ∃ st', ServerDb.createNode sq strHash name isDir n parent st = .ret () st' := by
  simp only [Creatable, hquery, hparent, true_and, Option.some.injEq, exists_eq_left']

theorem checkAndCreate_wire_iff (isDir : Bool) :
    (ServerDb.checkAndCreate sq strHash name isDir st).map (Option.map wire) =
        ServerDb.checkAndCreate sq strHash name isDir st ↔
      Narrow sq strHash st (.checkAndCreate name isDir) := by
  -- where the node is not made, no number comes back and the guard is false
  have hrefused : ∀ o : Outcome Fault Store (Option UInt64), o.map (Option.map wire) = o →
      (∀ n, ¬ Creatable sq strHash name isDir n st) →
      (o.map (Option.map wire) = o ↔ Narrow sq strHash st (.checkAndCreate name isDir)) :=
    fun o ho hno => iff_of_true ho fun m _ hmade => absurd hmade (hno _)
  rw [ServerDb.checkAndCreate, selectByName_bind]
  rcases hquery : query sq "name".toList name st with e | _ | row
  · refine hrefused _ rfl fun n hmade => ?_
    rw [Creatable, hquery] at hmade
    cases hmade.1
  · by_cases hroot : getParentName name = root
    · have hparent : createParent sq name st = some none := by rw [createParent, if_pos hroot]
      simp only [hroot, if_true]
      rw [createNext_wire_iff]
      simp only [Narrow, creatable_iff sq strHash hquery hparent]
    · simp only [hroot, if_false]
      rw [selectByName_bind]
      rcases hpar : query sq ServerDb.parentColumns (getParentName name) st with e | _ | par
      · have hparent : createParent sq name st = none := by simp [createParent, hroot, hpar]
        exact hrefused _ rfl fun n hmade => by simp [Creatable, hparent] at hmade
      · have hparent : createParent sq name st = none := by simp [createParent, hroot, hpar]
        exact hrefused _ rfl fun n hmade => by simp [Creatable, hparent] at hmade
      · by_cases hdir : par.isDirectory = 0
        · have hparent : createParent sq name st = none := by
            simp [createParent, hroot, hpar, hdir]
          simp only [hdir, if_true]
          exact hrefused _ rfl fun n hmade => by simp [Creatable, hparent] at hmade
        · have hparent : createParent sq name st =
              some (some ⟨par.content, UInt64.ofInt par.contentGenerationNumber⟩) := by
            simp [createParent, hroot, hpar, hdir]
          simp only [hdir, if_false]
          rw [createNext_wire_iff]
          simp only [Narrow, creatable_iff sq strHash hquery hparent]
  · refine hrefused _ rfl fun n hmade => ?_
    rw [Creatable, hquery] at hmade
    cases hmade.1

theorem getStates_wire_iff :
    (leaderDb sq strHash).getStates st = ServerDb.getStates st ↔
      Narrow sq strHash st .getStates := by
  show Outcome.ret ((st.fs.map fun row => (row.name, row.lockOwner)) ++
    st.fs.map fun row => (row.name, row.lockOwner)) st = .ret _ st ↔ _
  simp [Narrow]

end Methods

/-- A call through `ServerDBPaxos` ends as the same call on `ServerDB`, with the
    same result and the same store, if and only if the numbers that decide it
    mean the same after their way through the wire. -/
theorem runOn_leaderDb_iff (sq : Engine) (strHash : Str → UInt64) (st : Store) (op : DbOp) :
    op.runOn (leaderDb sq strHash) st = op.run sq strHash st ↔ Narrow sq strHash st op := by
  cases op with
  | checkAndCreate name isDir =>
    simp only [DbOp.runOn, DbOp.run, leaderDb_checkAndCreate]
    rw [Outcome.map_inj fun a b h => by injection h]
    exact checkAndCreate_wire_iff sq strHash isDir
  | checkAndOpen name =>
    simp only [DbOp.runOn, DbOp.run, leaderDb_checkAndOpen]
    rw [Outcome.map_inj fun a b h => by injection h]
    exact checkAndOpen_wire_iff sq strHash
  | checkAndDelete name n =>
    simp only [DbOp.runOn, DbOp.run, leaderDb_checkAndDelete]
    rw [Outcome.map_inj fun a b h => by injection h]
    exact checkAndDelete_wire_iff sq strHash n
  | checkAndRead name n =>
    simp only [DbOp.runOn, DbOp.run, leaderDb_checkAndRead]
    rw [Outcome.map_inj fun a b h => by injection h]
    exact checkAndRead_wire_iff sq strHash n
  | checkAndUpdate name n content =>
    simp only [DbOp.runOn, DbOp.run, leaderDb_checkAndUpdate]
    rw [Outcome.map_inj fun a b h => by injection h]
    exact checkAndUpdate_wire_iff sq strHash n content
  | testAndSetLockOwner name n clientId =>
    simp only [DbOp.runOn, DbOp.run, leaderDb_testAndSetLockOwner]
    rw [Outcome.map_inj fun a b h => by injection h]
    exact testAndSetLockOwner_wire_iff sq strHash n clientId
  | resetLockOwner name n =>
    simp only [DbOp.runOn, DbOp.run, leaderDb_resetLockOwner]
    rw [Outcome.map_inj fun a b h => by injection h]
    exact resetLockOwner_wire_iff sq strHash n
  | getStates =>
    simp only [DbOp.runOn, DbOp.run]
    rw [Outcome.map_inj fun a b h => by injection h]
    exact getStates_wire_iff sq strHash

/-- The read of a file with its instance number plus 2^32. -/
def wideRead : DbOp := .checkAndRead "/f".toList (2 ^ 32 + 1)

/-- A reachable store and a call that tells the two interfaces apart. -/
theorem not_runOn_leaderDb :
    ¬ ∀ st, (ServerDb.calls Engine.refusing (fun _ => 0) Store.empty).Reach (fun _ _ => True) st →
      ∀ op : DbOp, op ≠ .getStates →
        op.runOn (leaderDb Engine.refusing fun _ => 0) st =
          op.run Engine.refusing (fun _ => 0) st := by
  intro h
  have hreach : (ServerDb.calls Engine.refusing (fun _ => 0) Store.empty).Reach (fun _ _ => True)
      (Store.empty.create "/f".toList false 1) :=
    .step (l := .checkAndCreate "/f".toList false) (.init rfl) trivial rfl
  exact absurd (h _ hreach wideRead (by decide)) (by decide)

end SimpleChubby
