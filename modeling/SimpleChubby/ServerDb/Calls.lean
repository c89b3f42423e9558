import SimpleChubby.ServerDb.Tree

/-!
# Calls on one connection

The calls of `ServerDB` as steps of one store. A call that throws is a step too:
its caller catches the exception and the connection is used again as it was
left. While the strings of a call stay inside their quoted tokens the call does
what its statements say, and one relation lists what that is.
-/

namespace SimpleChubby

open SqlText

/-- What a method of `ServerDB` returns, with its outputs if it filled them. -/
inductive DbResult where
  | number (n : Option UInt64)
  | done (success : Bool)
  | contents (r : Option (Str × MetaData))
  | states (list : List (Str × Str))
  deriving DecidableEq, Repr

namespace DbOp

variable (sq : Engine) (strHash : Str → UInt64)

/-- Run a call. -/
def run (op : DbOp) : Prog Fault Store DbResult := fun st =>
  match op with
  | .checkAndCreate name isDir => (ServerDb.checkAndCreate sq strHash name isDir st).map .number
  | .checkAndOpen name => (ServerDb.checkAndOpen sq name st).map .number
  | .checkAndDelete name n => (ServerDb.checkAndDelete sq strHash name n st).map .done
  | .checkAndRead name n => (ServerDb.checkAndRead sq name n st).map .contents
  | .checkAndUpdate name n content =>
    (ServerDb.checkAndUpdate sq strHash name n content st).map .done
  | .testAndSetLockOwner name n clientId =>
    (ServerDb.testAndSetLockOwner sq name n clientId st).map .done
  | .resetLockOwner name n => (ServerDb.resetLockOwner sq name n st).map .done
  | .getStates => (ServerDb.getStates st).map .states

/-- The store after a call; a failed assertion ends the process. -/
def step (op : DbOp) (st : Store) : Option Store :=
  match op.run sq strHash st with
  | .ret _ st' => some st'
  | .stop .exception st' => some st'
  | .stop .assertion _ => none

end DbOp

/-- The runs of calls on a connection, from a given store. -/
def ServerDb.calls (sq : Engine) (strHash : Str → UInt64) (first : Store) : Lts Store DbOp where
  init st := st = first
  step := DbOp.step sq strHash

instance (token : Str) : Decidable (Plain token) :=
  decidable_of_iff (SqlText.quoted token = some token ∧ columnOf token = none)
    ⟨fun h => ⟨h.1, h.2⟩, fun h => ⟨h.quoted, h.column⟩⟩

/-- The strings of a call stay inside their tokens, its names stand for
    themselves, and so does the new content of the parent where there is one. -/
def Contained (st : Store) : DbOp → Prop
  | .checkAndCreate name _ => Plain name ∧ Plain (getParentName name) ∧
      ∀ p ∈ st.row (getParentName name), p.isDirectory ≠ 0 →
        quoted (dirContentCreate p.content name) ≠ none
  | .checkAndOpen name => Plain name
  | .checkAndDelete name _ => Plain name ∧ Plain (getParentName name) ∧
      ∀ p ∈ st.row (getParentName name), p.isDirectory ≠ 0 →
        quoted (dirContentDelete p.content name) ≠ none
  | .checkAndRead name _ => Plain name
  | .checkAndUpdate name _ content => Plain name ∧ quoted content ≠ none
  | .testAndSetLockOwner name _ clientId => Plain name ∧ quoted clientId ≠ none
  | .resetLockOwner name _ => Plain name
  | .getStates => True

instance (st : Store) (op : DbOp) : Decidable (Contained st op) := by
  unfold Contained
  split <;> infer_instance

/-! ## Methods that look a node up and check its instance number -/

section Checked

variable (sq : Engine) (strHash : Str → UInt64)

/-- The row a query on `name` selects. -/
def query (columns fileName : Str) (st : Store) : Except Fault (Option FsRow) :=
  match SqlText.quoted fileName with
  | some token => .ok (st.fs.find? (nameIs sq token))
  | none =>
    sq.brokenQuery ("SELECT ".toList ++ columns ++ " FROM fs WHERE name = \"".toList ++
      SqlText.cString fileName ++ "\"".toList) st

theorem selectByName_query (columns fileName : Str) (st : Store) :
    selectByName sq columns fileName st =
      match query sq columns fileName st with
      | .ok row => .ret row st
      | .error e => .stop e st := by
  unfold selectByName query
  cases SqlText.quoted fileName <;> rfl

/-- A query and what follows it. -/
theorem selectByName_bind {α : Type} (columns fileName : Str)
    (rest : Option FsRow → Prog Fault Store α) (st : Store) :
    (selectByName sq columns fileName >>= rest) st =
      match query sq columns fileName st with
      | .ok row => rest row st
      | .error e => .stop e st := by
  show Prog.andThen _ _ st = _
  unfold Prog.andThen
  rw [selectByName_query]
  cases query sq columns fileName st <;> rfl

/-- A query on a name that stands for itself finds the row of the node. -/
theorem query_plain {fileName : Str} (h : Plain fileName) (columns : Str) (st : Store) :
    query sq columns fileName st = .ok (st.row fileName) := by
  simp only [query, h.quoted, nameIs_plain h]
  rfl

/-- The parent of a node to be created, as `checkAndCreate` finds it: `some none`
    for the root. -/
def createParent (fileName : Str) (st : Store) : Option (Option ServerDb.ParentRow) :=
  if getParentName fileName = root then some none
  else
    match query sq ServerDb.parentColumns (getParentName fileName) st with
    | .ok (some par) =>
      if par.isDirectory = 0 then none
      else some (some ⟨par.content, UInt64.ofInt par.contentGenerationNumber⟩)
    | _ => none

/-- The end of a method that looks a node up and returns `no` if there is none or
    if it has another instance number. -/
def checked {α : Type} (st : Store) (no : α) (body : FsRow → Outcome Fault Store α)
    (n : UInt64) : Except Fault (Option FsRow) → Outcome Fault Store α
  | .error e => .stop e st
  | .ok none => .ret no st
  | .ok (some row) => if UInt64.ofInt row.instanceNumber = n then body row else .ret no st

/-- Such a method refuses a number that is not the one of the row found. -/
theorem checked_refused {α : Type} {st : Store} {no : α} {body : FsRow → Outcome Fault Store α}
    {n : UInt64} {found : Option FsRow}
    (h : ∀ row, found = some row → UInt64.ofInt row.instanceNumber ≠ n) :
    checked st no body n (.ok found) = .ret no st := by
  cases found with
  | none => rfl
  | some row => exact if_neg (h row rfl)

section Methods

variable {name : Str} {st : Store}

/-- A look-up followed by the check of the instance number. -/
theorem select_checked {α : Type} (columns : Str) (no : α) (body : FsRow → Prog Fault Store α)
    (n : UInt64) :
    (do
      match ← selectByName sq columns name with
      | none => return no
      | some row =>
        if UInt64.ofInt row.instanceNumber ≠ n then return no
        else body row : Prog Fault Store α) st =
      checked st no (fun row => body row st) n (query sq columns name st) := by
  rw [selectByName_bind]
  rcases query sq columns name st with e | _ | row
  · rfl
  · rfl
  · by_cases hn : UInt64.ofInt row.instanceNumber = n
    · simp only [checked, hn, ne_eq, not_true_eq_false, if_false, if_true]
    · simp only [checked, hn, ne_eq, not_false_eq_true, if_false, if_true]
      rfl

/-- The checks and statements of `checkAndDelete` on a row with the right
    instance number. -/
def deleteFound (name : Str) (row : FsRow) : Prog Fault Store Bool := do
  if row.lockOwner ≠ noOwner then return false
  else if row.isDirectory ≠ 0 ∧ row.content ≠ [] then return false
  else if getParentName name = root then
    ServerDb.removeNode sq strHash name none
    return true
  else
    match ← selectByName sq ServerDb.parentColumns (getParentName name) with
    | none => Prog.halt .assertion
    | some par =>
      if par.isDirectory ≠ 1 then Prog.halt .assertion
      else
        ServerDb.removeNode sq strHash name
          (some ⟨par.content, UInt64.ofInt par.contentGenerationNumber⟩)
        return true

/-- `checkAndDelete` looks at the lock owner first, which makes no difference. -/
theorem checkAndDelete_checked (n : UInt64) :
    ServerDb.checkAndDelete sq strHash name n st =
      checked st false (fun row => deleteFound sq strHash name row st) n
        (query sq "lock_owner, instance_number, is_directory, content".toList name st) := by
  rw [ServerDb.checkAndDelete, selectByName_bind]
  rcases query sq _ name st with e | _ | row
  · rfl
  · rfl
  · by_cases howner : row.lockOwner = noOwner
    · by_cases hn : UInt64.ofInt row.instanceNumber = n
      · simp only [checked, howner, hn, ne_eq, not_true_eq_false, if_false, if_true]
        exact (congrFun (if_neg (not_not.mpr howner)) st).symm
      · simp only [checked, howner, hn, ne_eq, not_true_eq_false, not_false_eq_true, if_false,
          if_true]
        rfl
    · simp only [checked, deleteFound, howner, ne_eq, not_false_eq_true, if_true]
      split_ifs <;> rfl

theorem checkAndRead_checked (n : UInt64) :
    ServerDb.checkAndRead sq name n st =
      checked st none (fun row => .ret (some (ServerDb.readRow row)) st) n
        (query sq ("content, instance_number, content_generation_number, ".toList ++
          "lock_generation_number, file_content_checksum, is_directory".toList) name st) :=
  select_checked sq _ none (fun row => pure (some (ServerDb.readRow row))) n

/-- The statements of `checkAndUpdate` on the row found. -/
def updateFound (name content : Str) (row : FsRow) : Prog Fault Store Bool := do
  sqlBegin
  updateContent sq content (UInt64.ofInt row.contentGenerationNumber + 1) (strHash content) name
  sqlCommit
  return true

theorem checkAndUpdate_checked (n : UInt64) (content : Str) :
    ServerDb.checkAndUpdate sq strHash name n content st =
      checked st false (fun row => updateFound sq strHash name content row st) n
        (query sq "instance_number, content_generation_number".toList name st) :=
  select_checked sq _ false (updateFound sq strHash name content) n

/-- The check of the owner and the statements of `testAndSetLockOwner` on the row found. -/
def lockFound (name clientId : Str) (row : FsRow) : Prog Fault Store Bool := do
  if row.lockOwner ≠ noOwner then return false
  else
    sqlBegin
    updateLockOwner sq clientId (UInt64.ofInt row.lockGenerationNumber + 1) name
    sqlCommit
    return true

theorem testAndSetLockOwner_checked (n : UInt64) (clientId : Str) :
    ServerDb.testAndSetLockOwner sq name n clientId st =
      checked st false (fun row => lockFound sq name clientId row st) n
        (query sq "instance_number, lock_owner, lock_generation_number".toList name st) :=
  select_checked sq _ false (lockFound sq name clientId) n

/-- A lock that somebody holds is refused. -/
theorem testAndSetLockOwner_held (hname : Plain name) {r : FsRow} (hrow : st.row name = some r)
    (howner : r.lockOwner ≠ noOwner) (n : UInt64) (clientId : Str) :
    ServerDb.testAndSetLockOwner sq name n clientId st = .ret false st := by
  rw [testAndSetLockOwner_checked, query_plain sq hname, hrow]
  simp only [checked, lockFound, howner, ne_eq, not_false_eq_true, if_true]
  split_ifs <;> rfl

/-- The statements of `resetLockOwner` on the row found. -/
def unlockFound (name : Str) : Prog Fault Store Bool := do
  sqlBegin
  clearLockOwner sq noOwner name
  sqlCommit
  return true

theorem resetLockOwner_checked (n : UInt64) :
    ServerDb.resetLockOwner sq name n st =
      checked st false (fun _ => unlockFound sq name st) n
        (query sq "instance_number".toList name st) :=
  select_checked sq _ false (fun _ => unlockFound sq name) n

/-- The end of `checkAndCreate` where nothing refuses the call. -/
theorem createNext_eq (isDir : Bool) (parent : Option ServerDb.ParentRow) :
    ServerDb.createNext sq strHash name isDir parent st =
      match st.maxInstanceNumber with
      | none => .stop .assertion st
      | some m => (ServerDb.createNode sq strHash name isDir (UInt64.ofInt m + 1) parent st).map
          fun _ => some (UInt64.ofInt m + 1) := by
  unfold ServerDb.createNext
  show Prog.andThen (Prog.gets Store.maxInstanceNumber) _ st = _
  simp only [Prog.andThen, Prog.gets]
  cases st.maxInstanceNumber with
  | none => rfl
  | some m =>
    show Prog.andThen (ServerDb.createNode sq strHash name isDir (UInt64.ofInt m + 1) parent) _ st
      = (ServerDb.createNode sq strHash name isDir (UInt64.ofInt m + 1) parent st).map _
    unfold Prog.andThen
    cases ServerDb.createNode sq strHash name isDir (UInt64.ofInt m + 1) parent st <;> rfl

end Methods

end Checked

/-! ## What a call does -/

/-- What a call does to the parent of the node it creates or deletes. -/
inductive ParentChange (st : Store) (parent : Str) : (FsRow → FsRow) → Prop
  | none : ParentChange st parent fun r => r
  | text {p : FsRow} {text value : Str} {generation checksum : UInt64} :
      st.row parent = some p → p.isDirectory ≠ 0 → quoted text = some value →
      ParentChange st parent (FsRow.withText value generation checksum)

/-- How the calls end whose strings stay inside their tokens. -/
inductive CallEnds (strHash : Str → UInt64) (st : Store) :
    DbOp → Outcome Fault Store DbResult → Prop
  | notCreated {name : Str} {isDir : Bool} :
      (st.row name ≠ none ∨ getParentName name ≠ root ∧
        ∀ p ∈ st.row (getParentName name), p.isDirectory = 0) →
      CallEnds strHash st (.checkAndCreate name isDir) (.ret (.number none) st)
  | created {name : Str} {isDir : Bool} {m : Int} {f : FsRow → FsRow} :
      st.row name = none → (getParentName name = root ∨
        ∃ p ∈ st.row (getParentName name), p.isDirectory ≠ 0) →
      st.maxInstanceNumber = some m → ParentChange st (getParentName name) f →
      CallEnds strHash st (.checkAndCreate name isDir)
        (.ret (.number (some (UInt64.ofInt m + 1)))
          ((st.create name isDir (UInt64.ofInt m + 1)).update (getParentName name) f))
  | opened {name : Str} : CallEnds strHash st (.checkAndOpen name)
      (.ret (.number ((st.row name).map fun r => UInt64.ofInt r.instanceNumber)) st)
  | notDeleted {name : Str} {n : UInt64} :
      (∀ r ∈ st.row name, r.lockOwner ≠ noOwner ∨ UInt64.ofInt r.instanceNumber ≠ n ∨
        r.isDirectory ≠ 0 ∧ r.content ≠ []) →
      CallEnds strHash st (.checkAndDelete name n) (.ret (.done false) st)
  | crashed {name : Str} {n : UInt64} {st' : Store} : st.row name ≠ none →
      getParentName name ≠ root →
      (∀ p ∈ st.row (getParentName name), p.isDirectory ≠ 1) →
      CallEnds strHash st (.checkAndDelete name n) (.stop .assertion st')
  | deleted {name : Str} {n : UInt64} {r : FsRow} {f : FsRow → FsRow} : st.row name = some r →
      UInt64.ofInt r.instanceNumber = n → ParentChange st (getParentName name) f →
      CallEnds strHash st (.checkAndDelete name n)
        (.ret (.done true) ((st.remove name).update (getParentName name) f))
  | read {name : Str} {n : UInt64} : CallEnds strHash st (.checkAndRead name n)
      (.ret (.contents (((st.row name).filter fun r =>
        UInt64.ofInt r.instanceNumber == n).map ServerDb.readRow)) st)
  | notUpdated {name : Str} {n : UInt64} {content : Str} :
      (∀ r ∈ st.row name, UInt64.ofInt r.instanceNumber ≠ n) →
      CallEnds strHash st (.checkAndUpdate name n content) (.ret (.done false) st)
  | updated {name : Str} {n : UInt64} {content value : Str} {r : FsRow} :
      st.row name = some r → UInt64.ofInt r.instanceNumber = n → quoted content = some value →
      CallEnds strHash st (.checkAndUpdate name n content) (.ret (.done true) (st.update name
        (FsRow.withText value (UInt64.ofInt r.contentGenerationNumber + 1) (strHash content))))
  | notLocked {name : Str} {n : UInt64} {clientId : Str} :
      (∀ r ∈ st.row name, UInt64.ofInt r.instanceNumber ≠ n ∨ r.lockOwner ≠ noOwner) →
      CallEnds strHash st (.testAndSetLockOwner name n clientId) (.ret (.done false) st)
  | locked {name : Str} {n : UInt64} {clientId value : Str} {r : FsRow} :
      st.row name = some r → UInt64.ofInt r.instanceNumber = n → r.lockOwner = noOwner →
      quoted clientId = some value →
      CallEnds strHash st (.testAndSetLockOwner name n clientId) (.ret (.done true)
        (st.update name (FsRow.withOwnerText value (UInt64.ofInt r.lockGenerationNumber + 1))))
  | notUnlocked {name : Str} {n : UInt64} :
      (∀ r ∈ st.row name, UInt64.ofInt r.instanceNumber ≠ n) →
      CallEnds strHash st (.resetLockOwner name n) (.ret (.done false) st)
  | unlocked {name : Str} {n : UInt64} {r : FsRow} : st.row name = some r →
      UInt64.ofInt r.instanceNumber = n →
      CallEnds strHash st (.resetLockOwner name n)
        (.ret (.done true) (st.update name FsRow.withoutOwner))
  | listed : CallEnds strHash st .getStates
      (.ret (.states (st.fs.map fun row => (row.name, row.lockOwner))) st)

section Ends

variable {sq : Engine} {strHash : Str → UInt64} {st : Store}

/-- An update with nothing to change. -/
theorem Store.update_id (st : Store) (name : Str) : st.update name (fun r => r) = st := by
  have hmap : (st.fs.map fun r => if (r.name == name) = true then r else r) = st.fs := by
    conv_rhs => rw [← List.map_id st.fs]
    apply List.map_congr_left
    intro r _
    split_ifs <;> rfl
  unfold Store.update Store.updateWhere
  rw [hmap]

theorem ParentChange.stable {parent : Str} {f : FsRow → FsRow} (h : ParentChange st parent f) :
    FsRow.Stable f := by
  cases h with
  | none => exact FsRow.stable_id
  | text _ _ _ => exact FsRow.stable_withText _ _ _

/-- A call whose strings stay inside their tokens, on an idle connection. -/
theorem call_ends (hidle : st.inTransaction = false) (hcounter : ∃ m, st.maxInstanceNumber = some m)
    {op : DbOp} (h : Contained st op) : CallEnds strHash st op (op.run sq strHash st) := by
  cases op with
  | checkAndCreate name isDir =>
    obtain ⟨hname, hparent, hvalue⟩ := h
    have hends := ServerDb.checkAndCreate_text sq strHash hidle hcounter hname hparent hvalue isDir
    simp only [DbOp.run]
    generalize ServerDb.checkAndCreate sq strHash name isDir st = o at hends
    cases hends with
    | present hrow => exact .notCreated (Or.inl (by simp [hrow]))
    | noParent hrow hroot hp => exact .notCreated (Or.inr ⟨hroot, by simp [hp]⟩)
    | fileParent hrow hroot hp hdir => exact .notCreated (Or.inr ⟨hroot, by simp [hp, hdir]⟩)
    | @top m hrow hroot hm =>
      have hends : CallEnds strHash st (.checkAndCreate name isDir) _ :=
        .created hrow (Or.inl hroot) hm .none
      rw [Store.update_id] at hends
      exact hends
    | nested hrow hroot hp hdir hm hv =>
      exact .created hrow (Or.inr ⟨_, hp, hdir⟩) hm (.text hp hdir hv)
  | checkAndOpen name =>
    simp only [DbOp.run, ServerDb.checkAndOpen_row sq h]
    exact .opened
  | checkAndDelete name n =>
    obtain ⟨hname, hparent, hvalue⟩ := h
    have hends := ServerDb.checkAndDelete_text sq strHash hidle hname hparent hvalue n
    simp only [DbOp.run]
    generalize ServerDb.checkAndDelete sq strHash name n st = o at hends
    cases hends with
    | absent hrow => exact .notDeleted (by simp [hrow])
    | refused hrow hwhy =>
      refine .notDeleted fun r hr => ?_
      obtain rfl := Option.some.inj (hrow.symm.trans hr)
      exact hwhy
    | @top r hrow _ hn _ _ =>
      have hends : CallEnds strHash st (.checkAndDelete name n) _ := .deleted hrow hn .none
      rw [Store.update_id] at hends
      exact hends
    | badParent hrow hroot hbad => exact .crashed (by simp [hrow]) hroot hbad
    | nested hrow _ hn _ _ hp hdir hv => exact .deleted hrow hn (.text hp (by omega) hv)
  | checkAndRead name n =>
    simp only [DbOp.run, ServerDb.checkAndRead_row sq h]
    exact .read
  | checkAndUpdate name n content =>
    obtain ⟨hname, hquoted⟩ := h
    obtain ⟨value, hvalue⟩ := Option.ne_none_iff_exists'.mp hquoted
    have hends := ServerDb.checkAndUpdate_text sq strHash hidle hname n hvalue
    simp only [DbOp.run]
    generalize ServerDb.checkAndUpdate sq strHash name n content st = o at hends
    cases hends with
    | refused hwhy => exact .notUpdated hwhy
    | updated hrow hn => exact .updated hrow hn hvalue
  | testAndSetLockOwner name n clientId =>
    obtain ⟨hname, hquoted⟩ := h
    obtain ⟨value, hvalue⟩ := Option.ne_none_iff_exists'.mp hquoted
    have hends := ServerDb.testAndSetLockOwner_text sq hidle hname n hvalue
    simp only [DbOp.run]
    generalize ServerDb.testAndSetLockOwner sq name n clientId st = o at hends
    cases hends with
    | refused hwhy => exact .notLocked hwhy
    | locked hrow hn hfree => exact .locked hrow hn hfree hvalue
  | resetLockOwner name n =>
    have hends := ServerDb.resetLockOwner_cases sq hidle h n
    simp only [DbOp.run]
    generalize ServerDb.resetLockOwner sq name n st = o at hends
    cases hends with
    | refused hwhy => exact .notUnlocked hwhy
    | unlocked hrow hn => exact .unlocked hrow hn
  | getStates => exact .listed

end Ends

/-! ## What contained calls keep -/

/-- A row whose name stands for itself and whose texts have come through a
    quoted token. -/
structure FsRow.Sound (r : FsRow) : Prop where
  name : Plain r.name
  content : Char.ofNat 0 ∉ r.content
  owner : Char.ofNat 0 ∉ r.lockOwner

/-- A store on an idle connection, with its counter, whose rows are sound. -/
structure Store.Sound (st : Store) : Prop where
  idle : st.inTransaction = false
  counter : ∃ m, st.maxInstanceNumber = some m
  rows : ∀ r ∈ st.fs, r.Sound

/-- No column has a quote in its name. -/
theorem quote_not_mem_column {token : Str} {c : Column} (h : columnOf token = some c) :
    '"' ∉ token := by
  intro hm
  obtain ⟨p, hp, -⟩ := Option.map_eq_some_iff.mp h
  have hsame := List.find?_some hp
  have hcolumns : ∀ p ∈ columnNames, '"' ∉ p.1.map Char.toLower := by decide
  refine hcolumns p (List.mem_of_find?_eq_some hp) ?_
  rw [beq_iff_eq.mp hsame]
  exact List.mem_map.mpr ⟨'"', hm, by decide⟩

theorem nul_not_mem_textValue {r : FsRow} (hr : r.Sound) {token : Str}
    (h : Char.ofNat 0 ∉ token) : Char.ofNat 0 ∉ textValue token r := by
  unfold textValue
  cases columnOf token with
  | none => exact h
  | some c =>
    cases c with
    | name => exact (quoted_eq_self_iff.mp hr.name.quoted).2
    | content => exact hr.content
    | lockOwner => exact hr.owner
    | _ => exact nul_not_mem_decimal _

theorem nul_not_mem_noOwner : Char.ofNat 0 ∉ noOwner := by decide

section Keeps

variable {strHash : Str → UInt64} {st : Store} {name : Str}

theorem FsRow.Sound.withText {r : FsRow} (hr : r.Sound) {text value : Str}
    (h : quoted text = some value) (generation checksum : UInt64) :
    (r.withText value generation checksum).Sound :=
  ⟨hr.name, nul_not_mem_textValue hr (nul_not_mem_quoted h), hr.owner⟩

theorem FsRow.Sound.withOwnerText {r : FsRow} (hr : r.Sound) {text value : Str}
    (h : quoted text = some value) (generation : UInt64) :
    (r.withOwnerText value generation).Sound :=
  ⟨hr.name, hr.content, nul_not_mem_textValue hr (nul_not_mem_quoted h)⟩

theorem FsRow.Sound.withoutOwner {r : FsRow} (hr : r.Sound) : r.withoutOwner.Sound :=
  ⟨hr.name, hr.content, nul_not_mem_noOwner⟩

theorem ParentChange.sound {parent : Str} {f : FsRow → FsRow} (h : ParentChange st parent f)
    {r : FsRow} (hr : r.Sound) : (f r).Sound := by
  cases h with
  | none => exact hr
  | text _ _ hvalue => exact hr.withText hvalue _ _

theorem Store.Sound.update (hst : st.Sound) {f : FsRow → FsRow}
    (hf : ∀ r : FsRow, r.Sound → (f r).Sound) : (st.update name f).Sound := by
  refine ⟨hst.idle, hst.counter, fun r hr => ?_⟩
  obtain ⟨r', hr', rfl⟩ := Store.mem_update.mp hr
  split_ifs
  · exact hf r' (hst.rows r' hr')
  · exact hst.rows r' hr'

theorem Store.Sound.create (hst : st.Sound) (hname : Plain name) (isDir : Bool) (n : UInt64) :
    (st.create name isDir n).Sound := by
  obtain ⟨m, hm⟩ := hst.counter
  refine ⟨hst.idle, ⟨printfD n, by simp [Store.create, hm]⟩, fun r hr => ?_⟩
  rcases Store.mem_create.mp hr with hr | rfl
  · exact hst.rows r hr
  · exact ⟨hname, by simp [Store.newRow], nul_not_mem_noOwner⟩

theorem Store.Sound.remove (hst : st.Sound) : (st.remove name).Sound :=
  ⟨hst.idle, hst.counter, fun r hr => hst.rows r (Store.mem_remove.mp hr).1⟩

theorem Store.sound_empty : Store.empty.Sound := by
  refine ⟨rfl, ⟨0, rfl⟩, fun r hr => ?_⟩
  cases hr

/-- A contained call that returns leaves the store sound. -/
theorem CallEnds.sound {op : DbOp} {o : Outcome Fault Store DbResult} (hop : Contained st op)
    (h : CallEnds strHash st op o) (hst : st.Sound) {res : DbResult} {st' : Store}
    (ho : o = .ret res st') : st'.Sound := by
  cases h with
  | created hrow _ hm hparent =>
    cases ho
    exact (hst.create hop.1 _ _).update fun r hr => hparent.sound hr
  | crashed => cases ho
  | deleted hrow hn hparent =>
    cases ho
    exact hst.remove.update fun r hr => hparent.sound hr
  | updated hrow hn hvalue =>
    cases ho
    exact hst.update fun r hr => hr.withText hvalue _ _
  | locked hrow hn hfree hvalue =>
    cases ho
    exact hst.update fun r hr => hr.withOwnerText hvalue _
  | unlocked hrow hn =>
    cases ho
    exact hst.update fun r hr => hr.withoutOwner
  | _ =>
    cases ho
    exact hst

end Keeps

section Runs

variable {sq : Engine} {strHash : Str → UInt64} {first st : Store}

/-- A step of contained calls is a call that returned. -/
theorem Store.Sound.step_cases (hst : st.Sound) {op : DbOp} (hop : Contained st op) {st' : Store}
    (h : op.step sq strHash st = some st') :
    ∃ res, op.run sq strHash st = .ret res st' ∧ CallEnds strHash st op (.ret res st') := by
  have hends : CallEnds strHash st op (op.run sq strHash st) :=
    call_ends hst.idle hst.counter hop
  unfold DbOp.step at h
  generalize hrun : op.run sq strHash st = o at h hends
  cases o with
  | ret res st'' =>
    obtain rfl := Option.some.inj h
    exact ⟨res, rfl, hends⟩
  | stop e st'' =>
    -- a contained call stops only in the assertions of a delete
    cases hends with
    | crashed => cases h

theorem Store.Sound.step (hst : st.Sound) {op : DbOp} (hop : Contained st op) {st' : Store}
    (h : op.step sq strHash st = some st') : st'.Sound := by
  obtain ⟨res, -, hends⟩ := hst.step_cases hop h
  exact hends.sound hop hst rfl

/-- Every store that contained calls lead to from a sound one is sound. -/
theorem Store.Sound.reach (hfirst : first.Sound) {ok : Store → DbOp → Prop}
    (hok : ∀ st op, ok st op → Contained st op)
    (h : (ServerDb.calls sq strHash first).Reach ok st) : st.Sound := by
  refine h.invariant (I := Store.Sound) ?_ ?_
  · rintro st rfl
    exact hfirst
  · intro st st' op _ hst hop hstep
    exact hst.step (hok st op hop) hstep

end Runs

end SimpleChubby
