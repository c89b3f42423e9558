import SimpleChubby.ServerDb.Calls

/-!
# Calls that throw

A method of `ServerDB` opens its transaction with `BEGIN`, sends its statements
and ends with `COMMIT`. An exception leaves it where it is thrown; nothing sends
`ROLLBACK`. So a call that throws leaves the store alone if it throws before
`BEGIN`, and leaves the transaction open if a statement after it fails.
-/

namespace SimpleChubby

open SqlText

/-- The engine refuses every text whose tokens an argument has broken. -/
structure Engine.Refuses (sq : Engine) : Prop where
  query : ∀ text st, sq.brokenQuery text st = .error .exception
  exec : ∀ text st, sq.brokenExec text st = .stop .exception st

/-- The parent of a node to be deleted, as `checkAndDelete` finds it: `some none`
    for the root. -/
def deleteParent (sq : Engine) (fileName : Str) (st : Store) :
    Option (Option ServerDb.ParentRow) :=
  if getParentName fileName = root then some none
  else
    match query sq ServerDb.parentColumns (getParentName fileName) st with
    | .ok (some par) =>
      if par.isDirectory ≠ 1 then none
      else some (some ⟨par.content, UInt64.ofInt par.contentGenerationNumber⟩)
    | _ => none

/-- The token of a name to be inserted is one, and no row has it. -/
def Insertable (fileName : Str) (st : Store) : Prop :=
  ∃ value, quoted fileName = some value ∧ ∀ r ∈ st.fs, r.name ≠ value

/-- The texts of the update of a parent, if there is one, stay inside their tokens. -/
def ParentTexts (fileName : Str) (newContent : Str → Str) :
    Option ServerDb.ParentRow → Prop
  | none => True
  | some p => quoted (newContent p.content) ≠ none ∧ quoted (getParentName fileName) ≠ none

/-- If the call gets as far as its transaction, the texts of the statements in it
    stay inside their tokens, and a name to be inserted is new. -/
def Safe (sq : Engine) (st : Store) : DbOp → Prop
  | .checkAndCreate name _ => query sq "name".toList name st = .ok none →
      ∀ parent, createParent sq name st = some parent → st.maxInstanceNumber ≠ none →
        Insertable name st ∧ ParentTexts name (dirContentCreate · name) parent
  | .checkAndDelete name n => ∀ row,
      query sq "lock_owner, instance_number, is_directory, content".toList name st =
        .ok (some row) → UInt64.ofInt row.instanceNumber = n → row.lockOwner = noOwner →
      (row.isDirectory = 0 ∨ row.content = []) → ∀ parent, deleteParent sq name st = some parent →
        quoted name ≠ none ∧ ParentTexts name (dirContentDelete · name) parent
  | .checkAndUpdate name n content => ∀ row,
      query sq "instance_number, content_generation_number".toList name st = .ok (some row) →
      UInt64.ofInt row.instanceNumber = n → quoted content ≠ none ∧ quoted name ≠ none
  | .testAndSetLockOwner name n clientId => ∀ row,
      query sq "instance_number, lock_owner, lock_generation_number".toList name st =
        .ok (some row) → UInt64.ofInt row.instanceNumber = n → row.lockOwner = noOwner →
      quoted clientId ≠ none ∧ quoted name ≠ none
  | .resetLockOwner name n => ∀ row, query sq "instance_number".toList name st = .ok (some row) →
      UInt64.ofInt row.instanceNumber = n → quoted name ≠ none
  | _ => True

section Law

variable (sq : Engine) (strHash : Str → UInt64)

/-- How the calls of a list end that are made one after the other. -/
def DbOp.results : List DbOp → Store → List (Outcome Fault Store DbResult)
  | [], _ => []
  | op :: rest, st =>
    op.run sq strHash st :: match op.step sq strHash st with
      | none => []
      | some st' => results rest st'

/-- The store after a call that threw is as if the call had not been made. -/
structure Untouched (st st' : Store) : Prop where
  rows : st'.fs = st.fs
  counter : st'.maxInstanceNumber = st.maxInstanceNumber
  closed : st'.inTransaction = false
  later : ∀ ops, DbOp.results sq strHash ops st' = DbOp.results sq strHash ops st

/-- If the call throws, it has no effect. -/
def Harmless (st : Store) (op : DbOp) : Prop :=
  ∀ st', op.run sq strHash st = .stop .exception st' → Untouched sq strHash st st'

end Law

/-! ## Statements of a transaction -/

/-- How a statement ends inside a transaction: it runs where its text is in order,
    and an engine that refuses the others throws with the transaction open. -/
inductive StatementEnds (sq : Engine) (inOrder : Prop) : Outcome Fault Store Unit → Prop
  | ran {st : Store} : inOrder → st.inTransaction = true → StatementEnds sq inOrder (.ret () st)
  | broken {o : Outcome Fault Store Unit} : ¬ inOrder →
      (sq.Refuses → ∃ st, o = .stop .exception st ∧ st.inTransaction = true) →
      StatementEnds sq inOrder o

/-- How a method ends that is called outside a transaction. Where it is safe it
    returns outside a transaction, or it stops in front of one. -/
inductive Tidy (sq : Engine) (st : Store) {α : Type} (safe : Prop) :
    Outcome Fault Store α → Prop
  | returned {a : α} {st' : Store} : safe → st'.inTransaction = false →
      Tidy sq st safe (.ret a st')
  | stopped {e : Fault} : safe → Tidy sq st safe (.stop e st)
  | broken {o : Outcome Fault Store α} : ¬ safe →
      (sq.Refuses → ∃ st', o = .stop .exception st' ∧ st'.inTransaction = true) →
      Tidy sq st safe o

section Statements

variable {sq : Engine} {s : Store} {name : Str}

theorem insertNode_statement (h : s.inTransaction = true) (n : UInt64) (isDir : Bool) :
    StatementEnds sq (Insertable name s) (insertNode sq name n isDir s) := by
  unfold insertNode
  cases hname : quoted name with
  | none =>
    refine .broken ?_ fun hrefuses => ⟨s, hrefuses.exec _ _, h⟩
    rintro ⟨value, hvalue, -⟩
    rw [hname] at hvalue
    cases hvalue
  | some value =>
    by_cases hany : (s.fs.any fun row => row.name == value) = true
    · simp only [hany, if_true]
      refine .broken ?_ fun _ => ⟨s, rfl, h⟩
      rintro ⟨value', hvalue', hnew⟩
      rw [hname] at hvalue'
      obtain rfl := Option.some.inj hvalue'
      obtain ⟨r, hr, hsame⟩ := List.any_eq_true.mp hany
      exact hnew r hr (beq_iff_eq.mp hsame)
    · simp only [hany]
      refine .ran ⟨value, hname, fun r hr hsame => hany ?_⟩ h
      exact List.any_eq_true.mpr ⟨r, hr, beq_iff_eq.mpr hsame⟩

theorem updateMaxInstance_statement (h : s.inTransaction = true) (n : UInt64) :
    StatementEnds sq True (updateMaxInstance n s) := .ran trivial h

theorem deleteNode_statement (h : s.inTransaction = true) :
    StatementEnds sq (quoted name ≠ none) (deleteNode sq name s) := by
  unfold deleteNode
  cases hname : quoted name with
  | none => exact .broken (fun hno => hno rfl) fun hrefuses => ⟨s, hrefuses.exec _ _, h⟩
  | some value => exact .ran (by simp) h

theorem updateContent_statement (h : s.inTransaction = true) (content : Str)
    (generation checksum : UInt64) :
    StatementEnds sq (quoted content ≠ none ∧ quoted name ≠ none)
      (updateContent sq content generation checksum name s) := by
  unfold updateContent
  cases hcontent : quoted content with
  | none => exact .broken (fun hno => hno.1 rfl) fun hrefuses => ⟨s, hrefuses.exec _ _, h⟩
  | some value =>
    cases hname : quoted name with
    | none => exact .broken (fun hno => hno.2 rfl) fun hrefuses => ⟨s, hrefuses.exec _ _, h⟩
    | some token => exact .ran ⟨by simp, by simp⟩ h

theorem updateLockOwner_statement (h : s.inTransaction = true) (owner : Str)
    (generation : UInt64) :
    StatementEnds sq (quoted owner ≠ none ∧ quoted name ≠ none)
      (updateLockOwner sq owner generation name s) := by
  unfold updateLockOwner
  cases howner : quoted owner with
  | none => exact .broken (fun hno => hno.1 rfl) fun hrefuses => ⟨s, hrefuses.exec _ _, h⟩
  | some value =>
    cases hname : quoted name with
    | none => exact .broken (fun hno => hno.2 rfl) fun hrefuses => ⟨s, hrefuses.exec _ _, h⟩
    | some token => exact .ran ⟨by simp, by simp⟩ h

theorem clearLockOwner_statement (h : s.inTransaction = true) :
    StatementEnds sq (quoted name ≠ none) (clearLockOwner sq noOwner name s) := by
  have howner : quoted noOwner = some noOwner := rfl
  unfold clearLockOwner
  rw [howner]
  cases hname : quoted name with
  | none => exact .broken (fun hno => hno rfl) fun hrefuses => ⟨s, hrefuses.exec _ _, h⟩
  | some value => exact .ran (by simp) h

end Statements

/-! ## Methods -/

section Sequence

variable {sq : Engine} {st s : Store} {α β : Type} {p q : Prop}

theorem Tidy.congr {o : Outcome Fault Store α} (h : Tidy sq st p o) (hpq : p ↔ q) :
    Tidy sq st q o := by
  cases h with
  | returned hsafe hclosed => exact .returned (hpq.mp hsafe) hclosed
  | stopped hsafe => exact .stopped (hpq.mp hsafe)
  | broken hno hthrows => exact .broken (fun hq => hno (hpq.mpr hq)) hthrows

theorem Tidy.map {o : Outcome Fault Store α} (h : Tidy sq st p o) (f : α → β) :
    Tidy sq st p (o.map f) := by
  cases h with
  | returned hsafe hclosed => exact .returned hsafe hclosed
  | stopped hsafe => exact .stopped hsafe
  | broken hno hthrows =>
    refine .broken hno fun hrefuses => ?_
    obtain ⟨st', rfl, hopen⟩ := hthrows hrefuses
    exact ⟨st', rfl, hopen⟩

theorem Tidy.andReturn {m : Prog Fault Store α} (h : Tidy sq st p (m s)) (b : β) :
    Tidy sq st p ((do let _ ← m; return b : Prog Fault Store β) s) := by
  have hmap : (do let _ ← m; return b : Prog Fault Store β) s = (m s).map fun _ => b := by
    show Prog.andThen m _ s = (m s).map _
    unfold Prog.andThen
    cases m s <;> rfl
  rw [hmap]
  exact h.map _

/-- `BEGIN` outside a transaction. -/
theorem Tidy.begin (hidle : st.inTransaction = false) {k : Unit → Prog Fault Store α}
    (h : Tidy sq st p (k () { st with inTransaction := true })) :
    Tidy sq st p ((sqlBegin >>= k) st) := by
  have hbegin : (sqlBegin >>= k) st = k () { st with inTransaction := true } := by
    show Prog.andThen sqlBegin k st = _
    simp [Prog.andThen, sqlBegin, hidle]
  rw [hbegin]
  exact h

/-- A statement and the rest of its transaction. -/
theorem Tidy.statement {m : Prog Fault Store Unit} {k : Unit → Prog Fault Store α}
    (hm : StatementEnds sq p (m s)) (hk : ∀ s', s'.inTransaction = true → Tidy sq st q (k () s')) :
    Tidy sq st (p ∧ q) ((m >>= k) s) := by
  show Tidy sq st (p ∧ q) (Prog.andThen m k s)
  unfold Prog.andThen
  generalize m s = o at hm
  cases hm with
  | ran hp hopen => exact (hk _ hopen).congr ⟨fun hq => ⟨hp, hq⟩, fun hpq => hpq.2⟩
  | broken hno hthrows =>
    refine .broken (fun hpq => hno hpq.1) fun hrefuses => ?_
    obtain ⟨s', rfl, hopen⟩ := hthrows hrefuses
    exact ⟨s', rfl, hopen⟩

/-- `COMMIT` inside a transaction. -/
theorem Tidy.commit (h : s.inTransaction = true) : Tidy sq st True (sqlCommit s) := by
  unfold sqlCommit
  rw [if_pos h]
  exact .returned trivial rfl

end Sequence

section Methods

variable {sq : Engine} {strHash : Str → UInt64} {st : Store} {name : Str}

/-- The update of a parent, if there is one, and the `COMMIT` after it. -/
theorem updateParent_tidy {s : Store} (h : s.inTransaction = true) (newContent : Str → Str)
    (p : ServerDb.ParentRow) :
    Tidy sq st (ParentTexts name newContent (some p)) ((do
      ServerDb.updateParent sq strHash (getParentName name) (newContent p.content)
        p.contentGenerationNumber
      sqlCommit : Prog Fault Store Unit) s) := by
  refine Tidy.congr (Tidy.statement (updateContent_statement h _ _ _) fun s' h' => .commit h') ?_
  simp [ParentTexts]

theorem createNode_tidy (hidle : st.inTransaction = false) (isDir : Bool) (n : UInt64)
    (parent : Option ServerDb.ParentRow) :
    Tidy sq st (Insertable name st ∧ ParentTexts name (dirContentCreate · name) parent)
      (ServerDb.createNode sq strHash name isDir n parent st) := by
  have hinsert : StatementEnds sq (Insertable name st)
      (insertNode sq name n isDir { st with inTransaction := true }) :=
    insertNode_statement (s := { st with inTransaction := true }) rfl n isDir
  unfold ServerDb.createNode
  refine Tidy.begin hidle (Tidy.statement hinsert fun s h => ?_)
  refine Tidy.congr (Tidy.statement (updateMaxInstance_statement h n) fun s' h' => ?_)
    (Iff.of_eq (true_and (ParentTexts name (dirContentCreate · name) parent)))
  cases parent with
  | none => exact .commit h'
  | some p => exact updateParent_tidy h' (dirContentCreate · name) p

theorem removeNode_tidy (hidle : st.inTransaction = false) (parent : Option ServerDb.ParentRow) :
    Tidy sq st (quoted name ≠ none ∧ ParentTexts name (dirContentDelete · name) parent)
      (ServerDb.removeNode sq strHash name parent st) := by
  unfold ServerDb.removeNode
  refine Tidy.begin hidle (Tidy.statement (deleteNode_statement rfl) fun s h => ?_)
  cases parent with
  | none => exact .commit h
  | some p => exact updateParent_tidy h (dirContentDelete · name) p

theorem updateFound_tidy (hidle : st.inTransaction = false) (content : Str) (row : FsRow) :
    Tidy sq st (quoted content ≠ none ∧ quoted name ≠ none)
      (updateFound sq strHash name content row st) := by
  unfold updateFound
  refine Tidy.begin hidle (Tidy.congr
    (Tidy.statement (updateContent_statement rfl content _ _) fun s h => ?_)
    (Iff.of_eq (and_true _)))
  exact (Tidy.commit h).andReturn true

theorem lockFound_tidy (hidle : st.inTransaction = false) (clientId : Str) (row : FsRow) :
    Tidy sq st (row.lockOwner = noOwner → quoted clientId ≠ none ∧ quoted name ≠ none)
      (lockFound sq name clientId row st) := by
  unfold lockFound
  by_cases hfree : row.lockOwner = noOwner
  · rw [if_neg (not_not.mpr hfree)]
    have hiff : (quoted clientId ≠ none ∧ quoted name ≠ none) ∧ True ↔
        (row.lockOwner = noOwner → quoted clientId ≠ none ∧ quoted name ≠ none) := by
      simp [hfree]
    refine Tidy.begin hidle (Tidy.congr
      (Tidy.statement (updateLockOwner_statement rfl clientId _) fun s h => ?_) hiff)
    exact (Tidy.commit h).andReturn true
  · rw [if_pos hfree]
    exact .returned (fun h => absurd h hfree) hidle

theorem unlockFound_tidy (hidle : st.inTransaction = false) :
    Tidy sq st (quoted name ≠ none) (unlockFound sq name st) := by
  unfold unlockFound
  refine Tidy.begin hidle (Tidy.congr
    (Tidy.statement (clearLockOwner_statement rfl) fun s h => ?_) (Iff.of_eq (and_true _)))
  exact (Tidy.commit h).andReturn true

/-- A method that looks a node up and checks its instance number. -/
theorem checked_tidy {α : Type} (hidle : st.inTransaction = false) (no : α)
    {body : FsRow → Outcome Fault Store α} {safe : FsRow → Prop}
    (hbody : ∀ row, Tidy sq st (safe row) (body row)) (n : UInt64)
    (found : Except Fault (Option FsRow)) :
    Tidy sq st (∀ row, found = .ok (some row) → UInt64.ofInt row.instanceNumber = n → safe row)
      (checked st no body n found) := by
  rcases found with e | _ | row
  · exact .stopped fun row hrow => by cases hrow
  · exact .returned (fun row hrow => by cases hrow) hidle
  · have hfound : checked st no body n (.ok (some row)) =
        if UInt64.ofInt row.instanceNumber = n then body row else .ret no st := rfl
    rw [hfound]
    by_cases hn : UInt64.ofInt row.instanceNumber = n
    · rw [if_pos hn]
      refine (hbody row).congr ⟨fun hsafe row' hrow _ => ?_, fun hall => hall row rfl hn⟩
      cases hrow
      exact hsafe
    · rw [if_neg hn]
      refine .returned (fun row' hrow hn' => ?_) hidle
      cases hrow
      exact absurd hn' hn

theorem deleteFound_tidy (hidle : st.inTransaction = false) (row : FsRow) :
    Tidy sq st (row.lockOwner = noOwner → (row.isDirectory = 0 ∨ row.content = []) →
        ∀ parent, deleteParent sq name st = some parent →
          quoted name ≠ none ∧ ParentTexts name (dirContentDelete · name) parent)
      (deleteFound sq strHash name row st) := by
  unfold deleteFound
  by_cases howner : row.lockOwner = noOwner
  · rw [if_neg (not_not.mpr howner)]
    by_cases hdir : row.isDirectory ≠ 0 ∧ row.content ≠ []
    · rw [if_pos hdir]
      refine .returned (fun _ hempty => ?_) hidle
      rcases hempty with hfile | hnil
      · exact absurd hfile hdir.1
      · exact absurd hnil hdir.2
    · rw [if_neg hdir]
      have hempty : row.isDirectory = 0 ∨ row.content = [] := by
        by_cases hfile : row.isDirectory = 0
        · exact Or.inl hfile
        · exact Or.inr (not_not.mp fun hne => hdir ⟨hfile, hne⟩)
      -- what is left depends on the parent alone
      have hiff : ∀ parent, deleteParent sq name st = some parent →
          (quoted name ≠ none ∧ ParentTexts name (dirContentDelete · name) parent ↔
            (row.lockOwner = noOwner → (row.isDirectory = 0 ∨ row.content = []) →
              ∀ parent, deleteParent sq name st = some parent →
                quoted name ≠ none ∧ ParentTexts name (dirContentDelete · name) parent)) := by
        intro parent hparent
        refine ⟨fun htexts _ _ parent' hparent' => ?_, fun hall => hall howner hempty _ hparent⟩
        rw [hparent] at hparent'
        obtain rfl := Option.some.inj hparent'
        exact htexts
      by_cases hroot : getParentName name = root
      · rw [if_pos hroot]
        have hparent : deleteParent sq name st = some none := by rw [deleteParent, if_pos hroot]
        exact ((removeNode_tidy hidle none).andReturn true).congr (hiff _ hparent)
      · rw [if_neg hroot, selectByName_bind]
        rcases hpar : query sq ServerDb.parentColumns (getParentName name) st with e | _ | par
        · refine .stopped fun _ _ parent hparent => ?_
          simp [deleteParent, hroot, hpar] at hparent
        · refine .stopped fun _ _ parent hparent => ?_
          simp [deleteParent, hroot, hpar] at hparent
        · by_cases hisdir : par.isDirectory = 1
          · have hparent : deleteParent sq name st =
                some (some ⟨par.content, UInt64.ofInt par.contentGenerationNumber⟩) := by
              simp [deleteParent, hroot, hpar, hisdir]
            simp only [hisdir, ne_eq, not_true_eq_false, if_false]
            exact ((removeNode_tidy hidle _).andReturn true).congr (hiff _ hparent)
          · simp only [hisdir, ne_eq, not_false_eq_true, if_true]
            refine .stopped fun _ _ parent hparent => ?_
            simp [deleteParent, hroot, hpar, hisdir] at hparent
  · rw [if_pos howner]
    exact .returned (fun h => absurd h howner) hidle

theorem createNext_tidy (hidle : st.inTransaction = false) (isDir : Bool)
    (parent : Option ServerDb.ParentRow) :
    Tidy sq st (st.maxInstanceNumber ≠ none →
        Insertable name st ∧ ParentTexts name (dirContentCreate · name) parent)
      (ServerDb.createNext sq strHash name isDir parent st) := by
  rw [createNext_eq]
  cases hm : st.maxInstanceNumber with
  | none => exact .stopped fun h => absurd rfl h
  | some m =>
    refine ((createNode_tidy hidle isDir _ parent).map _).congr ?_
    simp

theorem checkAndCreate_tidy (hidle : st.inTransaction = false) (isDir : Bool) :
    Tidy sq st (Safe sq st (.checkAndCreate name isDir))
      (ServerDb.checkAndCreate sq strHash name isDir st) := by
  rw [ServerDb.checkAndCreate, selectByName_bind]
  rcases hquery : query sq "name".toList name st with e | _ | row
  · refine .stopped fun hnone => ?_
    rw [hquery] at hnone
    cases hnone
  · -- what is left depends on the parent alone
    have hiff : ∀ parent, createParent sq name st = some parent →
        ((st.maxInstanceNumber ≠ none →
          Insertable name st ∧ ParentTexts name (dirContentCreate · name) parent) ↔
          Safe sq st (.checkAndCreate name isDir)) := by
      intro parent hparent
      refine ⟨fun htexts _ parent' hparent' => ?_, fun hall => hall hquery _ hparent⟩
      rw [hparent] at hparent'
      obtain rfl := Option.some.inj hparent'
      exact htexts
    by_cases hroot : getParentName name = root
    · have hparent : createParent sq name st = some none := by rw [createParent, if_pos hroot]
      simp only [hroot, if_true]
      exact (createNext_tidy hidle isDir none).congr (hiff _ hparent)
    · simp only [hroot, if_false]
      rw [selectByName_bind]
      rcases hpar : query sq ServerDb.parentColumns (getParentName name) st with e | _ | par
      · refine .stopped fun _ parent hparent => ?_
        simp [createParent, hroot, hpar] at hparent
      · refine .returned (fun _ parent hparent => ?_) hidle
        simp [createParent, hroot, hpar] at hparent
      · by_cases hdir : par.isDirectory = 0
        · simp only [hdir, if_true]
          refine .returned (fun _ parent hparent => ?_) hidle
          simp [createParent, hroot, hpar, hdir] at hparent
        · have hparent : createParent sq name st =
              some (some ⟨par.content, UInt64.ofInt par.contentGenerationNumber⟩) := by
            simp [createParent, hroot, hpar, hdir]
          simp only [hdir, if_false]
          exact (createNext_tidy hidle isDir _).congr (hiff _ hparent)
  · refine .returned (fun hnone => ?_) hidle
    rw [hquery] at hnone
    cases hnone

/-- How a call ends outside a transaction. -/
theorem call_tidy (hidle : st.inTransaction = false) (op : DbOp) :
    Tidy sq st (Safe sq st op) (op.run sq strHash st) := by
  cases op with
  | checkAndCreate name isDir => exact (checkAndCreate_tidy hidle isDir).map _
  | checkAndOpen name =>
    simp only [DbOp.run, ServerDb.checkAndOpen, selectByName_bind]
    rcases query sq _ name st with e | _ | row
    · exact .stopped trivial
    · exact .returned trivial hidle
    · exact .returned trivial hidle
  | checkAndDelete name n =>
    simp only [DbOp.run, checkAndDelete_checked]
    exact (checked_tidy hidle false (deleteFound_tidy hidle) n _).map _
  | checkAndRead name n =>
    simp only [DbOp.run, checkAndRead_checked]
    have hbody : ∀ row, Tidy sq st True (Outcome.ret (some (ServerDb.readRow row)) st) :=
      fun row => .returned trivial hidle
    exact ((checked_tidy hidle none hbody n _).map _).congr
      ⟨fun _ => trivial, fun _ _ _ _ => trivial⟩
  | checkAndUpdate name n content =>
    simp only [DbOp.run, checkAndUpdate_checked]
    exact (checked_tidy hidle false (updateFound_tidy hidle content) n _).map _
  | testAndSetLockOwner name n clientId =>
    simp only [DbOp.run, testAndSetLockOwner_checked]
    exact (checked_tidy hidle false (lockFound_tidy hidle clientId) n _).map _
  | resetLockOwner name n =>
    simp only [DbOp.run, resetLockOwner_checked]
    exact (checked_tidy hidle false (fun _ => unlockFound_tidy hidle) n _).map _
  | getStates => exact .returned trivial hidle

end Methods

/-! ## Every run -/

section Runs

variable {sq : Engine} {strHash : Str → UInt64} {st : Store} {op : DbOp}

/-- A call that throws in front of its transaction has no effect. -/
theorem Tidy.harmless (h : Tidy sq st (Safe sq st op) (op.run sq strHash st))
    (hidle : st.inTransaction = false) (hsafe : Safe sq st op) : Harmless sq strHash st op := by
  intro st' hrun
  rw [hrun] at h
  cases h with
  | stopped _ => exact ⟨rfl, rfl, hidle, fun _ => rfl⟩
  | broken hno _ => exact absurd hsafe hno

/-- Where the engine refuses broken texts, a call without effect was safe. -/
theorem Harmless.safe (h : Harmless sq strHash st op)
    (htidy : Tidy sq st (Safe sq st op) (op.run sq strHash st)) (hrefuses : sq.Refuses) :
    Safe sq st op := by
  generalize hrun : op.run sq strHash st = o at htidy
  cases htidy with
  | returned hsafe _ => exact hsafe
  | stopped hsafe => exact hsafe
  | broken _ hthrows =>
    obtain ⟨st', rfl, hopen⟩ := hthrows hrefuses
    have hclosed := (h st' hrun).closed
    rw [hopen] at hclosed
    cases hclosed

/-- Safe calls leave no transaction open. -/
theorem safe_idle (h : (ServerDb.calls sq strHash .empty).Reach (Safe sq) st) :
    st.inTransaction = false := by
  refine h.invariant (I := fun s => s.inTransaction = false) ?_ ?_
  · rintro st rfl
    rfl
  · intro st st' op _ hidle hsafe hstep
    have htidy : Tidy sq st (Safe sq st op) (op.run sq strHash st) := call_tidy hidle op
    have hstep : DbOp.step sq strHash op st = some st' := hstep
    unfold DbOp.step at hstep
    generalize op.run sq strHash st = o at htidy hstep
    cases htidy with
    | returned _ hclosed =>
      obtain rfl := Option.some.inj hstep
      exact hclosed
    | @stopped e _ =>
      cases e with
      | exception =>
        obtain rfl := Option.some.inj hstep
        exact hidle
      | assertion => cases hstep
    | broken hno _ => exact absurd hsafe hno

/-- In every run of safe calls a safe call that throws has no effect; and where
    the engine refuses broken texts, no other call has that property. -/
theorem harmless_reachable (h : (ServerDb.calls sq strHash .empty).Reach (Safe sq) st) (op : DbOp) :
    (Safe sq st op → Harmless sq strHash st op) ∧
      (sq.Refuses → Harmless sq strHash st op → Safe sq st op) := by
  have hidle := safe_idle h
  have htidy : Tidy sq st (Safe sq st op) (op.run sq strHash st) := call_tidy hidle op
  exact ⟨htidy.harmless hidle, fun hrefuses hharmless => hharmless.safe htidy hrefuses⟩

end Runs

/-- The creation of a file is safe on a new store. -/
theorem safe_create : Safe .refusing .empty (.checkAndCreate ['/', 'f'] false) := by
  intro _ parent hparent _
  obtain rfl := Option.some.inj hparent
  refine ⟨⟨['/', 'f'], rfl, fun r hr => ?_⟩, trivial⟩
  cases hr

theorem harmless_brokenName : ∃ st, (ServerDb.calls .refusing (fun _ => 0) .empty).step
      (.checkAndCreate ['/', 'f'] false) .empty = some st ∧
    (∃ st', (DbOp.checkAndDelete ['"'] 1).run .refusing (fun _ => 0) st = .stop .exception st') ∧
    Harmless .refusing (fun _ => 0) st (.checkAndDelete ['"'] 1) := by
  refine ⟨Store.empty.create ['/', 'f'] false 1, rfl, ⟨_, rfl⟩, ?_⟩
  have hreach : (ServerDb.calls .refusing (fun _ => 0) .empty).Reach (Safe .refusing)
      (Store.empty.create ['/', 'f'] false 1) := .step (.init rfl) safe_create rfl
  refine (harmless_reachable hreach _).1 fun row hrow => ?_
  cases hrow

/-- A content that is one double quote leaves the transaction open. -/
theorem not_harmless :
    ¬ ∀ st, (ServerDb.calls .refusing (fun _ => 0) .empty).Reach (fun _ _ => True) st →
      ∀ op, Harmless .refusing (fun _ => 0) st op := by
  intro h
  have hreach : (ServerDb.calls .refusing (fun _ => 0) .empty).Reach (fun _ _ => True)
      (Store.empty.create ['/', 'f'] false 1) :=
    .step (l := .checkAndCreate ['/', 'f'] false) (.init rfl) trivial rfl
  have hclosed := (h _ hreach (.checkAndUpdate ['/', 'f'] 1 ['"']) _ rfl).closed
  cases hclosed

end SimpleChubby
