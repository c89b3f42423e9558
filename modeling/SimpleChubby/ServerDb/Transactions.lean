import SimpleChubby.ServerDb.Failure
import SimpleChubby.ServerDb.Selection

/-!
# The transaction of a call

A method of `ServerDB` reads first and makes up its mind; what it changes it
changes between `BEGIN` and `COMMIT`. So the store a call comes upon says whether
there is a transaction at all, which statements are in it and what is returned
after it; a call without one leaves the store alone.
-/

namespace SimpleChubby

open SqlText Prog

variable (sq : Engine) (strHash : Str → UInt64)

/-- Statements between `BEGIN` and `COMMIT`. -/
def transaction (statements : Prog Fault Store Unit) : Prog Fault Store Unit := do
  sqlBegin
  statements
  sqlCommit

/-- The statements of `checkAndCreate`. -/
def createStatements (name : Str) (isDir : Bool) (n : UInt64)
    (parent : Option ServerDb.ParentRow) : Prog Fault Store Unit := do
  insertNode sq name n isDir
  updateMaxInstance n
  match parent with
  | none => pure ()
  | some p =>
    ServerDb.updateParent sq strHash (getParentName name) (dirContentCreate p.content name)
      p.contentGenerationNumber

/-- The statements of `checkAndDelete`. -/
def deleteStatements (name : Str) (parent : Option ServerDb.ParentRow) :
    Prog Fault Store Unit := do
  deleteNode sq name
  match parent with
  | none => pure ()
  | some p =>
    ServerDb.updateParent sq strHash (getParentName name) (dirContentDelete p.content name)
      p.contentGenerationNumber

/-- The row found, if it has the instance number. -/
def numbered (n : UInt64) : Except Fault (Option FsRow) → Option FsRow
  | .ok (some row) => if UInt64.ofInt row.instanceNumber = n then some row else none
  | _ => none

/-- The row whose node `checkAndDelete` deletes. -/
def deletedRow (name : Str) (n : UInt64) (st : Store) : Option FsRow :=
  (numbered n (query sq "lock_owner, instance_number, is_directory, content".toList name st)).filter
    fun row => row.lockOwner = noOwner ∧ ¬ (row.isDirectory ≠ 0 ∧ row.content ≠ [])

/-- The row whose content `checkAndUpdate` overwrites. -/
def updatedRow (name : Str) (n : UInt64) (st : Store) : Option FsRow :=
  numbered n (query sq "instance_number, content_generation_number".toList name st)

/-- The row whose lock `testAndSetLockOwner` takes. -/
def lockedRow (name : Str) (n : UInt64) (st : Store) : Option FsRow :=
  (numbered n (query sq "instance_number, lock_owner, lock_generation_number".toList name
    st)).filter fun row => row.lockOwner = noOwner

/-- The row whose lock `resetLockOwner` frees. -/
def unlockedRow (name : Str) (n : UInt64) (st : Store) : Option FsRow :=
  numbered n (query sq "instance_number".toList name st)

/-- The parent of a node that is created and its instance number, unless the node
    exists or cannot be made. -/
def createdUnder (name : Str) (st : Store) : Option (Option ServerDb.ParentRow × UInt64) :=
  match query sq "name".toList name st with
  | .ok none =>
    (createParent sq name st).bind fun parent =>
      st.maxInstanceNumber.map fun m => (parent, UInt64.ofInt m + 1)
  | _ => none

namespace DbOp

/-- The statements of a call that nothing refuses, and what the call returns after
    them. -/
def statements (st : Store) : DbOp → Option (Prog Fault Store Unit × DbResult)
  | .checkAndCreate name isDir =>
    (createdUnder sq name st).map fun c =>
      (createStatements sq strHash name isDir c.2 c.1, .number (some c.2))
  | .checkAndDelete name n =>
    (deletedRow sq name n st).bind fun _ => (deleteParent sq name st).map fun parent =>
      (deleteStatements sq strHash name parent, .done true)
  | .checkAndUpdate name n content =>
    (updatedRow sq name n st).map fun row =>
      (updateContent sq content (UInt64.ofInt row.contentGenerationNumber + 1) (strHash content)
        name, .done true)
  | .testAndSetLockOwner name n clientId =>
    (lockedRow sq name n st).map fun row =>
      (updateLockOwner sq clientId (UInt64.ofInt row.lockGenerationNumber + 1) name, .done true)
  | .resetLockOwner name n =>
    (unlockedRow sq name n st).map fun _ => (clearLockOwner sq noOwner name, .done true)
  | _ => none

/-- The call was refused. -/
def Refused : DbResult → Prop
  | .number n => n = none
  | .done success => success = false
  | .contents r => r = none
  | .states _ => False

/-- How a call ends. -/
inductive Transacts (st : Store) (op : DbOp) : Outcome Fault Store DbResult → Prop
  | left {res : DbResult} : op.statements sq strHash st = none → Transacts st op (.ret res st)
  | stopped {e : Fault} : op.statements sq strHash st = none → Transacts st op (.stop e st)
  | ran {m : Prog Fault Store Unit} {res : DbResult} :
      op.statements sq strHash st = some (m, res) → ¬ Refused res →
      Transacts st op ((transaction m st).map fun _ => res)

end DbOp

/-! ## Methods as transactions -/

section Methods

variable {sq : Engine} {strHash : Str → UInt64} {st : Store} {name : Str}

/-- A transaction and the value returned after it. -/
theorem transaction_return {α : Type} (m : Prog Fault Store Unit) (a : α) :
    (do sqlBegin; m; sqlCommit; return a : Prog Fault Store α) st =
      (transaction m st).map fun _ => a := by
  have hbind : (do sqlBegin; m; sqlCommit; return a : Prog Fault Store α) =
      transaction m >>= fun _ => pure a := by
    unfold transaction
    simp only [bind_bind]
  rw [hbind]
  show andThen (transaction m) _ st = _
  unfold andThen
  cases transaction m st with
  | ret _ st' => rfl
  | stop e st' => rfl

theorem createNode_transaction (isDir : Bool) (n : UInt64) (parent : Option ServerDb.ParentRow) :
    ServerDb.createNode sq strHash name isDir n parent =
      transaction (createStatements sq strHash name isDir n parent) := by
  unfold ServerDb.createNode transaction createStatements
  simp only [bind_bind]
  cases parent with
  | none => rfl
  | some p => rfl

theorem removeNode_transaction (parent : Option ServerDb.ParentRow) :
    ServerDb.removeNode sq strHash name parent =
      transaction (deleteStatements sq strHash name parent) := by
  unfold ServerDb.removeNode transaction deleteStatements
  simp only [bind_bind]
  cases parent with
  | none => rfl
  | some p => rfl

theorem removeNode_return (parent : Option ServerDb.ParentRow) :
    (do ServerDb.removeNode sq strHash name parent; return true : Prog Fault Store Bool) st =
      (transaction (deleteStatements sq strHash name parent) st).map fun _ => true := by
  rw [← transaction_return, removeNode_transaction]
  unfold transaction
  simp only [bind_bind]

/-- A method that looks a node up and checks its instance number. -/
theorem checked_transacts {op : DbOp} {n : UInt64} {found : Except Fault (Option FsRow)}
    {body : FsRow → Outcome Fault Store Bool}
    (hnone : numbered n found = none → op.statements sq strHash st = none)
    (hbody : ∀ row, numbered n found = some row →
      op.Transacts sq strHash st ((body row).map .done)) :
    op.Transacts sq strHash st ((checked st false body n found).map .done) := by
  rcases found with e | _ | row
  · exact .stopped (hnone rfl)
  · exact .left (hnone rfl)
  · by_cases hn : UInt64.ofInt row.instanceNumber = n
    · have hchecked : checked st false body n (.ok (some row)) = body row := if_pos hn
      rw [hchecked]
      exact hbody row (if_pos hn)
    · have hchecked : checked st false body n (.ok (some row)) = .ret false st := if_neg hn
      rw [hchecked]
      exact .left (hnone (if_neg hn))

/-- A transaction that answers `true`. -/
theorem transacts_done {op : DbOp} {m : Prog Fault Store Unit}
    (h : op.statements sq strHash st = some (m, .done true)) {o : Outcome Fault Store Bool}
    (ho : o = (transaction m st).map fun _ => true) : op.Transacts sq strHash st (o.map .done) := by
  have hmap : o.map DbResult.done = (transaction m st).map fun _ => DbResult.done true := by
    rw [ho]
    cases transaction m st with
    | ret _ st' => rfl
    | stop e st' => rfl
  rw [hmap]
  exact .ran h Bool.noConfusion

theorem checkAndUpdate_transacts (n : UInt64) (content : Str) :
    (DbOp.checkAndUpdate name n content).Transacts sq strHash st
      ((DbOp.checkAndUpdate name n content).run sq strHash st) := by
  simp only [DbOp.run, checkAndUpdate_checked]
  refine checked_transacts (fun hnone => ?_) fun row hrow => ?_
  · simp only [DbOp.statements, updatedRow, hnone, Option.map_none]
  · refine transacts_done (m := updateContent sq content _ (strHash content) name) ?_
      (transaction_return _ true)
    simp only [DbOp.statements, updatedRow, hrow, Option.map_some]

theorem resetLockOwner_transacts (n : UInt64) :
    (DbOp.resetLockOwner name n).Transacts sq strHash st
      ((DbOp.resetLockOwner name n).run sq strHash st) := by
  simp only [DbOp.run, resetLockOwner_checked]
  refine checked_transacts (fun hnone => ?_) fun row hrow => ?_
  · simp only [DbOp.statements, unlockedRow, hnone, Option.map_none]
  · refine transacts_done (m := clearLockOwner sq noOwner name) ?_ (transaction_return _ true)
    simp only [DbOp.statements, unlockedRow, hrow, Option.map_some]

theorem testAndSetLockOwner_transacts (n : UInt64) (clientId : Str) :
    (DbOp.testAndSetLockOwner name n clientId).Transacts sq strHash st
      ((DbOp.testAndSetLockOwner name n clientId).run sq strHash st) := by
  simp only [DbOp.run, testAndSetLockOwner_checked]
  refine checked_transacts (fun hnone => ?_) fun row hrow => ?_
  · simp only [DbOp.statements, lockedRow, hnone, Option.filter_none, Option.map_none]
  · unfold lockFound
    by_cases hfree : row.lockOwner = noOwner
    · rw [if_neg (not_not.mpr hfree)]
      refine transacts_done (m := updateLockOwner sq clientId _ name) ?_ (transaction_return _ true)
      simp only [DbOp.statements, lockedRow, hrow, Option.filter_some, hfree, decide_true, if_true,
        Option.map_some]
    · rw [if_pos hfree]
      refine .left ?_
      simp only [DbOp.statements, lockedRow, hrow, Option.filter_some, hfree, decide_false,
        Bool.false_eq_true, if_false, Option.map_none]

theorem checkAndDelete_transacts (n : UInt64) :
    (DbOp.checkAndDelete name n).Transacts sq strHash st
      ((DbOp.checkAndDelete name n).run sq strHash st) := by
  simp only [DbOp.run, checkAndDelete_checked]
  refine checked_transacts (fun hnone => ?_) fun row hrow => ?_
  · simp only [DbOp.statements, deletedRow, hnone, Option.filter_none, Option.bind_none]
  · unfold deleteFound
    by_cases howner : row.lockOwner = noOwner
    · rw [if_neg (not_not.mpr howner)]
      by_cases hdir : row.isDirectory ≠ 0 ∧ row.content ≠ []
      · rw [if_pos hdir]
        have hnone : deletedRow sq name n st = none := by
          rw [deletedRow, hrow, Option.filter_some, if_neg (by simp [hdir])]
        refine .left ?_
        simp only [DbOp.statements, hnone, Option.bind_none]
      · rw [if_neg hdir]
        have hfound : deletedRow sq name n st = some row := by
          simp only [deletedRow, hrow, Option.filter_some, howner, hdir,
            not_false_eq_true, and_self,
            decide_true, if_true]
        have hstatements : (DbOp.checkAndDelete name n).statements sq strHash st =
            (deleteParent sq name st).map fun parent =>
              (deleteStatements sq strHash name parent, .done true) := by
          simp only [DbOp.statements, hfound, Option.bind_some]
        by_cases hroot : getParentName name = root
        · have hparent : deleteParent sq name st = some none := by rw [deleteParent, if_pos hroot]
          rw [if_pos hroot]
          refine transacts_done ?_ (removeNode_return none)
          rw [hstatements, hparent]
          rfl
        · rw [if_neg hroot, selectByName_bind]
          rcases hpar : query sq ServerDb.parentColumns (getParentName name) st with e | _ | par
          · refine .stopped ?_
            rw [hstatements]
            simp [deleteParent, hroot, hpar]
          · refine .stopped ?_
            rw [hstatements]
            simp [deleteParent, hroot, hpar]
          · by_cases hisdir : par.isDirectory = 1
            · simp only [hisdir, ne_eq, not_true_eq_false, if_false]
              refine transacts_done ?_ (removeNode_return _)
              rw [hstatements]
              simp [deleteParent, hroot, hpar, hisdir]
            · simp only [hisdir, ne_eq, not_false_eq_true, if_true]
              refine .stopped ?_
              rw [hstatements]
              simp [deleteParent, hroot, hpar, hisdir]
    · rw [if_pos howner]
      have hnone : deletedRow sq name n st = none := by
        rw [deletedRow, hrow, Option.filter_some, if_neg (by simp [howner])]
      refine .left ?_
      simp only [DbOp.statements, hnone, Option.bind_none]

/-- The end of `checkAndCreate` where nothing refuses the call. -/
theorem createNext_transacts (isDir : Bool) (parent : Option ServerDb.ParentRow)
    (hquery : query sq "name".toList name st = .ok none)
    (hparent : createParent sq name st = some parent) :
    (DbOp.checkAndCreate name isDir).Transacts sq strHash st
      ((ServerDb.createNext sq strHash name isDir parent st).map .number) := by
  have hstatements : (DbOp.checkAndCreate name isDir).statements sq strHash st =
      (st.maxInstanceNumber.map fun m => (parent, UInt64.ofInt m + 1)).map fun c =>
        (createStatements sq strHash name isDir c.2 c.1, .number (some c.2)) := by
    simp only [DbOp.statements, createdUnder, hquery, hparent, Option.bind_some]
  rw [createNext_eq]
  cases hmax : st.maxInstanceNumber with
  | none =>
    refine .stopped ?_
    rw [hstatements, hmax]
    rfl
  | some m =>
    rw [hmax] at hstatements
    have hmap : ((ServerDb.createNode sq strHash name isDir (UInt64.ofInt m + 1) parent st).map
        fun _ => some (UInt64.ofInt m + 1)).map DbResult.number =
          (transaction (createStatements sq strHash name isDir (UInt64.ofInt m + 1) parent) st).map
            fun _ => .number (some (UInt64.ofInt m + 1)) := by
      rw [createNode_transaction]
      cases transaction (createStatements sq strHash name isDir (UInt64.ofInt m + 1) parent) st with
      | ret _ st' => rfl
      | stop e st' => rfl
    show DbOp.Transacts _ _ _ _ (((ServerDb.createNode _ _ _ _ _ _ _).map _).map _)
    rw [hmap]
    exact .ran hstatements nofun

theorem checkAndCreate_transacts (isDir : Bool) :
    (DbOp.checkAndCreate name isDir).Transacts sq strHash st
      ((DbOp.checkAndCreate name isDir).run sq strHash st) := by
  -- without a parent to put the node under there is no transaction
  have hnoParent : createParent sq name st = none →
      (DbOp.checkAndCreate name isDir).statements sq strHash st = none := by
    intro hparent
    simp only [DbOp.statements, createdUnder, hparent, Option.bind_none]
    split <;> rfl
  simp only [DbOp.run]
  rw [ServerDb.checkAndCreate, selectByName_bind]
  rcases hquery : query sq "name".toList name st with e | _ | row
  · exact .stopped (by simp only [DbOp.statements, createdUnder, hquery, Option.map_none])
  · by_cases hroot : getParentName name = root
    · have hparent : createParent sq name st = some none := by rw [createParent, if_pos hroot]
      simp only [hroot, if_true]
      exact createNext_transacts isDir none hquery hparent
    · simp only [hroot, if_false]
      rw [selectByName_bind]
      rcases hpar : query sq ServerDb.parentColumns (getParentName name) st with e | _ | par
      · exact .stopped (hnoParent (by simp [createParent, hroot, hpar]))
      · exact .left (hnoParent (by simp [createParent, hroot, hpar]))
      · by_cases hdir : par.isDirectory = 0
        · simp only [hdir, if_true]
          exact .left (hnoParent (by simp [createParent, hroot, hpar, hdir]))
        · simp only [hdir, if_false]
          refine createNext_transacts isDir _ hquery ?_
          simp [createParent, hroot, hpar, hdir]
  · exact .left (by simp only [DbOp.statements, createdUnder, hquery, Option.map_none])

/-- How a call ends, on every store. -/
theorem call_transacts (op : DbOp) : op.Transacts sq strHash st (op.run sq strHash st) := by
  cases op with
  | checkAndCreate name isDir => exact checkAndCreate_transacts isDir
  | checkAndOpen name =>
    simp only [DbOp.run, ServerDb.checkAndOpen, selectByName_bind]
    rcases query sq _ name st with e | _ | row
    · exact .stopped rfl
    · exact .left rfl
    · exact .left rfl
  | checkAndDelete name n => exact checkAndDelete_transacts n
  | checkAndRead name n =>
    simp only [DbOp.run, checkAndRead_checked]
    rcases query sq _ name st with e | _ | row
    · exact .stopped rfl
    · exact .left rfl
    · simp only [checked]
      split_ifs
      · exact .left rfl
      · exact .left rfl
  | checkAndUpdate name n content => exact checkAndUpdate_transacts n content
  | testAndSetLockOwner name n clientId => exact testAndSetLockOwner_transacts n clientId
  | resetLockOwner name n => exact resetLockOwner_transacts n
  | getStates => exact .left rfl

/-- A call that is refused leaves the store alone. -/
theorem refused_store {op : DbOp} {res : DbResult} {st' : Store}
    (h : op.run sq strHash st = .ret res st') (hres : DbOp.Refused res) : st' = st := by
  have hends : op.Transacts sq strHash st (op.run sq strHash st) := call_transacts op
  rw [h] at hends
  generalize ho : (Outcome.ret res st' : Outcome Fault Store DbResult) = o at hends
  cases hends with
  | left _ =>
    cases ho
    rfl
  | stopped _ => cases ho
  | @ran m res' _ haccepted =>
    cases hm : transaction m st with
    | stop e s =>
      rw [hm] at ho
      cases ho
    | ret _ s =>
      rw [hm] at ho
      cases ho
      exact absurd hres haccepted

end Methods

end SimpleChubby
