import SimpleChubby.ServerDb.Generations
import SimpleChubby.ServerDb.ReadBack
import SimpleChubby.ServerDb.Transactions

/-!
# The checksum of the content

`file_content_checksum` is `str_hash` of the content, a number of 64 bits. It is
printed with `%d`, so only its low 32 bits reach the table; a new row has the
default 0 beside its empty content; and what is hashed is the text the call was
given, which need not be the text a row then holds.
-/

namespace SimpleChubby

open SqlText Prog

section Statement

variable (sq : Engine) (strHash : Str → UInt64)

/-- The stored checksum, read as 64 bits, is that of the content. -/
def FsRow.Summed (r : FsRow) : Prop := UInt64.ofInt r.fileContentChecksum = strHash r.content

/-- Every row has the checksum of its content. -/
def Store.Summed (st : Store) : Prop := ∀ r ∈ st.fs, r.Summed strHash

/-- The columns `checkAndRead` asks for. -/
def readColumns : Str :=
  "content, instance_number, content_generation_number, ".toList ++
    "lock_generation_number, file_content_checksum, is_directory".toList

/-- Whoever reads a node is given the checksum of the content he is given. -/
def ChecksumsMatch (st : Store) : Prop :=
  ∀ f n, ∀ r ∈ st.fs, query sq readColumns f st = .ok (some r) → ∀ content metaData st',
    ServerDb.checkAndRead sq f n st = .ret (some (content, metaData)) st' →
      metaData.fileContentChecksum = strHash content

/-- However it ends, the program leaves every row with the checksum of its content. -/
def LeavesSummed (m : Prog Fault Store Unit) (st : Store) : Prop :=
  wp m (fun _ st' => st'.Summed strHash) (fun _ st' => st'.Summed strHash) st

/-- The checksum that is stored is that of the text a row is given. -/
def SumsAs (text value : Str) (r : FsRow) : Prop :=
  UInt64.ofInt (printfD (strHash text)) = strHash (textValue value r)

instance (text value : Str) (r : FsRow) : Decidable (SumsAs strHash text value r) :=
  inferInstanceAs (Decidable (_ = _))

/-- An update of the content stores in every row it selects the checksum of what it
    stores there. Where an argument breaks the text, what SQLite makes of it does. -/
def UpdateSums (f text : Str) (generation : UInt64) (st : Store) : Prop :=
  match quoted text, quoted f with
  | some value, some token => ∀ r ∈ st.fs, nameIs sq token r = true → SumsAs strHash text value r
  | _, _ => LeavesSummed strHash (updateContent sq text generation (strHash text) f) st

/-- The default 0 is the checksum of the new node's empty content, unless the update
    of the parent is made to the new row too; and that update stores checksums of
    what it stores. -/
def CreateSums (name : Str) (isDir : Bool) (n : UInt64) (parent : Option ServerDb.ParentRow)
    (st : Store) : Prop :=
  match quoted name with
  | none => LeavesSummed strHash (createStatements sq strHash name isDir n parent) st.begun
  | some value => (∀ r ∈ st.fs, r.name ≠ value) →
    match parent with
    | none => strHash [] = 0
    | some p =>
      UpdateSums sq strHash (getParentName name) (dirContentCreate p.content name)
          (p.contentGenerationNumber + 1) (st.begun.create value isDir n) ∧
        ∀ token, quoted (dirContentCreate p.content name) ≠ none →
          quoted (getParentName name) = some token →
          nameIs sq token (st.newRow value isDir n) = false → strHash [] = 0

/-- The update of the parent of a deleted node stores checksums of what it stores. -/
def DeleteSums (name : Str) (parent : Option ServerDb.ParentRow) (st : Store) : Prop :=
  match quoted name with
  | none => LeavesSummed strHash (deleteStatements sq strHash name parent) st.begun
  | some token => ∀ p ∈ parent,
    UpdateSums sq strHash (getParentName name) (dirContentDelete p.content name)
      (p.contentGenerationNumber + 1)
      { st.begun with fs := st.fs.filter fun row => !nameIs sq token row }

/-- Where the call gets to its statements, these store checksums of what they store. -/
def KeepsSums (st : Store) : DbOp → Prop
  | .checkAndCreate name isDir => st.inTransaction = false → ∀ parent n,
      createdUnder sq name st = some (parent, n) → CreateSums sq strHash name isDir n parent st
  | .checkAndDelete name n => st.inTransaction = false → ∀ row parent,
      deletedRow sq name n st = some row → deleteParent sq name st = some parent →
        DeleteSums sq strHash name parent st
  | .checkAndUpdate name n content => st.inTransaction = false → ∀ row,
      updatedRow sq name n st = some row →
        UpdateSums sq strHash name content (UInt64.ofInt row.contentGenerationNumber + 1) st.begun
  | .testAndSetLockOwner name n clientId => st.inTransaction = false → ∀ row,
      lockedRow sq name n st = some row → quoted clientId = none ∨ quoted name = none →
        LeavesSummed strHash (updateLockOwner sq clientId
          (UInt64.ofInt row.lockGenerationNumber + 1) name) st.begun
  | .resetLockOwner name n => st.inTransaction = false → ∀ row,
      unlockedRow sq name n st = some row → quoted name = none →
        LeavesSummed strHash (clearLockOwner sq noOwner name) st.begun
  | _ => True

end Statement

/-! ## Sums that survive `%d` -/

/-- The 64 bits are read back just if the number is one of 32 bits with a sign. -/
theorem printfD_readBack_iff (n : UInt64) :
    UInt64.ofInt (printfD n) = n ↔ n.toNat < 2 ^ 31 ∨ 2 ^ 64 - 2 ^ 31 ≤ n.toNat := by
  rw [printfD_eq, ← UInt64.toNat_inj]
  have hn : n.toNat < 2 ^ 64 := n.toNat_lt
  simp only [UInt64.ofInt, UInt64.toNat_ofNat', Int.bmod]
  omega

section Rows

variable {sq : Engine} {strHash : Str → UInt64} {st : Store} {name : Str}

theorem Store.summed_begun : st.begun.Summed strHash ↔ st.Summed strHash := Iff.rfl

/-- An update of the selected rows. -/
theorem Store.summed_updateWhere {p : FsRow → Bool} {g : FsRow → FsRow} :
    (st.updateWhere p g).Summed strHash ↔
      ∀ r ∈ st.fs, if p r = true then (g r).Summed strHash else r.Summed strHash := by
  unfold Store.Summed Store.updateWhere
  rw [List.forall_mem_map]
  refine forall₂_congr fun r _ => ?_
  split_ifs
  · rfl
  · rfl

/-- An update of columns that the sum is not about. -/
theorem Store.Summed.updateWhere (h : st.Summed strHash) {p : FsRow → Bool} {g : FsRow → FsRow}
    (hg : ∀ r : FsRow, r.Summed strHash → (g r).Summed strHash) :
    (st.updateWhere p g).Summed strHash := by
  rw [Store.summed_updateWhere]
  intro r hr
  split_ifs
  · exact hg r (h r hr)
  · exact h r hr

theorem Store.Summed.filter (h : st.Summed strHash) (p : FsRow → Bool) :
    Store.Summed strHash { st with fs := st.fs.filter p } :=
  fun r hr => h r (List.mem_of_mem_filter hr)

theorem newRow_summed_iff (isDir : Bool) (n : UInt64) :
    (st.newRow name isDir n).Summed strHash ↔ strHash [] = 0 := by
  unfold FsRow.Summed Store.newRow
  exact eq_comm

theorem create_summed_iff (h : st.Summed strHash) (isDir : Bool) (n : UInt64) :
    (st.create name isDir n).Summed strHash ↔ strHash [] = 0 := by
  have hnewRow : (st.newRow name isDir n).Summed strHash ↔ strHash [] = 0 :=
    newRow_summed_iff isDir n
  rw [← hnewRow]
  constructor
  · intro hall
    exact hall _ (by simp [Store.create])
  · intro hnew r hr
    rcases List.mem_append.mp hr with hold | hr
    · exact h r hold
    · obtain rfl := List.mem_singleton.mp hr
      exact hnew

end Rows

/-! ## Statements -/

section Statements

variable {sq : Engine} {strHash : Str → UInt64} {st : Store} {name text : Str}

/-- The update of the content, on rows that need not have their sums. -/
theorem updateContent_summed {value token : Str} (hvalue : quoted text = some value)
    (htoken : quoted name = some token) (generation : UInt64) :
    LeavesSummed strHash (updateContent sq text generation (strHash text) name) st ↔
      ∀ r ∈ st.fs, if nameIs sq token r = true then SumsAs strHash text value r
        else r.Summed strHash := by
  have hrun : updateContent sq text generation (strHash text) name st =
      .ret ()
        (st.updateWhere (nameIs sq token) (FsRow.withText value generation (strHash text))) := by
    unfold updateContent
    rw [hvalue, htoken]
    rfl
  unfold LeavesSummed wp
  rw [hrun]
  exact Store.summed_updateWhere

theorem updateSums_iff (h : st.Summed strHash) (generation : UInt64) :
    LeavesSummed strHash (updateContent sq text generation (strHash text) name) st ↔
      UpdateSums sq strHash name text generation st := by
  unfold UpdateSums
  split
  · next value token hvalue htoken =>
    rw [updateContent_summed hvalue htoken]
    refine forall₂_congr fun r hr => ?_
    split_ifs with hselected
    · exact ⟨fun hsums _ => hsums, fun hsums => hsums hselected⟩
    · exact iff_of_true (h r hr) fun hcon => absurd hcon hselected
  · exact Iff.rfl

theorem leavesSummed_congr {m m' : Prog Fault Store Unit} {s s' : Store} (h : m s = m' s') :
    LeavesSummed strHash m s ↔ LeavesSummed strHash m' s' := by
  unfold LeavesSummed wp
  rw [h]

/-- An update of the content after a row was added. -/
theorem createUpdate_summed (h : st.Summed strHash) {value : Str} (isDir : Bool) (n : UInt64)
    (text parent : Str) {generation : UInt64} :
    LeavesSummed strHash (updateContent sq text generation (strHash text) parent)
        (st.begun.create value isDir n) ↔
      UpdateSums sq strHash parent text generation (st.begun.create value isDir n) ∧
        ∀ token, quoted text ≠ none → quoted parent = some token →
          nameIs sq token (st.newRow value isDir n) = false → strHash [] = 0 := by
  have hmem : ∀ r, r ∈ (st.begun.create value isDir n).fs ↔ r ∈ st.fs ∨
      r = st.newRow value isDir n :=
    fun r => by simp [Store.create, Store.begun, Store.newRow]
  cases htext : quoted text with
  | none =>
    simp only [UpdateSums, htext, ne_eq, not_true_eq_false, false_imp_iff, implies_true, and_true]
  | some token =>
    cases hparent : quoted parent with
    | none =>
      simp only [UpdateSums, htext, hparent, reduceCtorEq, false_imp_iff, implies_true, and_true]
    | some token' =>
      rw [updateContent_summed htext hparent]
      simp only [UpdateSums, htext, hparent]
      constructor
      · intro hall
        refine ⟨fun r hr hselected => ?_, fun t _ ht hother => ?_⟩
        · have hsums := hall r hr
          rwa [if_pos hselected] at hsums
        · obtain rfl := Option.some.inj ht
          have hnew := hall _ ((hmem _).mpr (Or.inr rfl))
          rw [if_neg (by simp [hother])] at hnew
          exact (newRow_summed_iff isDir n).mp hnew
      · rintro ⟨hsums, hzero⟩ r hr
        split_ifs with hselected
        · exact hsums r hr hselected
        · rcases (hmem r).mp hr with hold | rfl
          · exact h r hold
          · refine (newRow_summed_iff isDir n).mpr (hzero _ (Option.some_ne_none _) rfl ?_)
            simpa using hselected

/-- The row a creation adds, and the statements after it. -/
theorem insertNode_bind {α : Type} {value : Str} (hvalue : quoted name = some value)
    (hnew : ∀ r ∈ st.fs, r.name ≠ value) (isDir : Bool) (n : UInt64)
    (rest : Unit → Prog Fault Store α) :
    (do insertNode sq name n isDir; updateMaxInstance n; rest () : Prog Fault Store α) st.begun =
      rest () (st.begun.create value isDir n) := by
  have hany : (st.fs.any fun r => r.name == value) = false := by
    rw [List.any_eq_false]
    exact fun r hr => by simpa using hnew r hr
  have hinsert : insertNode sq name n isDir st.begun =
      .ret () { st.begun with fs := st.fs ++ [st.newRow value isDir n] } := by
    unfold insertNode
    simp only [hvalue, Store.begun, hany]
    rfl
  rw [bind_of_ret hinsert]
  rfl

/-- A name that a row has cannot be inserted. -/
theorem createStatements_taken {value : Str} (hvalue : quoted name = some value)
    (htaken : ¬ ∀ r ∈ st.fs, r.name ≠ value) (isDir : Bool) (n : UInt64)
    (parent : Option ServerDb.ParentRow) :
    createStatements sq strHash name isDir n parent st.begun = .stop .exception st.begun := by
  have hany : (st.fs.any fun r => r.name == value) = true := by
    push Not at htaken
    obtain ⟨r, hr, hname⟩ := htaken
    exact List.any_eq_true.mpr ⟨r, hr, beq_iff_eq.mpr hname⟩
  have hinsert : insertNode sq name n isDir st.begun = .stop .exception st.begun := by
    unfold insertNode
    simp only [hvalue, Store.begun, hany, if_true]
  exact bind_of_stop hinsert

theorem createSums_iff (h : st.Summed strHash) (isDir : Bool) (n : UInt64)
    (parent : Option ServerDb.ParentRow) :
    LeavesSummed strHash (createStatements sq strHash name isDir n parent) st.begun ↔
      CreateSums sq strHash name isDir n parent st := by
  unfold CreateSums
  cases hvalue : quoted name with
  | none => exact Iff.rfl
  | some value =>
    by_cases hnew : ∀ r ∈ st.fs, r.name ≠ value
    · refine Iff.trans ?_ ⟨fun hsums _ => hsums, fun hsums => hsums hnew⟩
      cases parent with
      | none =>
        have hrun : createStatements sq strHash name isDir n none st.begun =
            (pure () : Prog Fault Store Unit) (st.begun.create value isDir n) :=
          insertNode_bind hvalue hnew isDir n fun _ => pure ()
        rw [leavesSummed_congr hrun]
        exact create_summed_iff (Store.summed_begun.mpr h) isDir n
      | some p =>
        have hrun : createStatements sq strHash name isDir n (some p) st.begun =
            ServerDb.updateParent sq strHash (getParentName name)
              (dirContentCreate p.content name) p.contentGenerationNumber
              (st.begun.create value isDir n) :=
          insertNode_bind hvalue hnew isDir n fun _ => ServerDb.updateParent sq strHash _ _ _
        rw [leavesSummed_congr hrun]
        exact createUpdate_summed h isDir n _ _
    · refine iff_of_true ?_ fun hcon => absurd hcon hnew
      unfold LeavesSummed wp
      rw [createStatements_taken hvalue hnew]
      exact h

theorem deleteSums_iff (h : st.Summed strHash) (parent : Option ServerDb.ParentRow) :
    LeavesSummed strHash (deleteStatements sq strHash name parent) st.begun ↔
      DeleteSums sq strHash name parent st := by
  unfold DeleteSums
  cases hvalue : quoted name with
  | none => exact Iff.rfl
  | some token =>
    have hdelete : deleteNode sq name st.begun =
        .ret () { st.begun with fs := st.fs.filter fun row => !nameIs sq token row } := by
      unfold deleteNode
      rw [hvalue]
      rfl
    have hleft : Store.Summed strHash
        { st.begun with fs := st.fs.filter fun row => !nameIs sq token row } := h.filter _
    cases parent with
    | none =>
      have hrun : deleteStatements sq strHash name none st.begun =
          (pure () : Prog Fault Store Unit) _ := bind_of_ret hdelete
      rw [leavesSummed_congr hrun]
      exact iff_of_true hleft nofun
    | some p =>
      have hrun : deleteStatements sq strHash name (some p) st.begun =
          ServerDb.updateParent sq strHash (getParentName name) (dirContentDelete p.content name)
            p.contentGenerationNumber _ := bind_of_ret hdelete
      rw [leavesSummed_congr hrun]
      refine (updateSums_iff hleft _).trans ⟨fun hsums p' hp' => ?_, fun hsums => hsums p rfl⟩
      obtain rfl := Option.some.inj hp'
      exact hsums

/-- A change of the lock columns is one that the sums are not about. -/
theorem lockSums_iff (h : st.Summed strHash) (clientId : Str) (generation : UInt64) :
    LeavesSummed strHash (updateLockOwner sq clientId generation name) st.begun ↔
      (quoted clientId = none ∨ quoted name = none →
        LeavesSummed strHash (updateLockOwner sq clientId generation name) st.begun) := by
  refine ⟨fun hsums _ => hsums, fun hsums => ?_⟩
  cases howner : quoted clientId with
  | none => exact hsums (Or.inl howner)
  | some value =>
    cases hname : quoted name with
    | none => exact hsums (Or.inr hname)
    | some token =>
      have hrun : updateLockOwner sq clientId generation name st.begun =
          .ret ()
            (st.begun.updateWhere (nameIs sq token) (FsRow.withOwnerText value generation)) := by
        unfold updateLockOwner
        rw [howner, hname]
        rfl
      unfold LeavesSummed wp
      rw [hrun]
      exact Store.Summed.updateWhere h fun _ hr => hr

theorem unlockSums_iff (h : st.Summed strHash) :
    LeavesSummed strHash (clearLockOwner sq noOwner name) st.begun ↔
      (quoted name = none → LeavesSummed strHash (clearLockOwner sq noOwner name) st.begun) := by
  refine ⟨fun hsums _ => hsums, fun hsums => ?_⟩
  cases hname : quoted name with
  | none => exact hsums hname
  | some token =>
    have hrun : clearLockOwner sq noOwner name st.begun =
        .ret () (st.begun.updateWhere (nameIs sq token) FsRow.withoutOwner) := by
      unfold clearLockOwner
      rw [hname]
      rfl
    unfold LeavesSummed wp
    rw [hrun]
    exact Store.Summed.updateWhere h fun _ hr => hr

end Statements

/-! ## Calls -/

section Calls

variable {sq : Engine} {strHash : Str → UInt64} {st : Store}

/-- Statements between `BEGIN` and `COMMIT`. -/
theorem transaction_summed (h : st.Summed strHash) (m : Prog Fault Store Unit) :
    LeavesSummed strHash (transaction m) st ↔
      (st.inTransaction = false → LeavesSummed strHash m st.begun) := by
  unfold LeavesSummed transaction
  by_cases hidle : st.inTransaction = false
  · rw [wp_bind, wp_sqlBegin hidle, wp_bind]
    have hcommit : ∀ s : Store, wp sqlCommit (fun _ s' => s'.Summed strHash)
        (fun _ s' => s'.Summed strHash) s ↔ s.Summed strHash := by
      intro s
      unfold wp sqlCommit
      by_cases htx : s.inTransaction = true
      · rw [if_pos htx]
        exact Iff.rfl
      · rw [if_neg htx]
    constructor
    · intro hm _
      exact wp_mono hm (fun _ s hs => (hcommit s).mp hs) fun _ _ hs => hs
    · intro hm
      exact wp_mono (hm hidle) (fun _ s hs => (hcommit s).mpr hs) fun _ _ hs => hs
  · have hrefused : sqlBegin st = .stop .exception st := if_pos (by simpa using hidle)
    refine iff_of_true ?_ fun hcon => absurd hcon hidle
    unfold wp
    rw [bind_of_stop hrefused]
    exact h

/-- The statements that what was looked up leads to. -/
theorem lookedUp_summed {α : Type} {found : Option α} {m : α → Prog Fault Store Unit}
    {res : α → DbResult} {Q : α → Prop} (hQ : ∀ a, LeavesSummed strHash (m a) st.begun ↔ Q a) :
    (∀ m' res', found.map (fun a => (m a, res a)) = some (m', res') →
        st.inTransaction = false → LeavesSummed strHash m' st.begun) ↔
      (st.inTransaction = false → ∀ a, found = some a → Q a) := by
  constructor
  · intro hall hidle a ha
    have hmap : found.map (fun a => (m a, res a)) = some (m a, res a) := by rw [ha, Option.map_some]
    exact (hQ a).mp (hall _ _ hmap hidle)
  · intro hall m' res' hmap hidle
    obtain ⟨a, ha, hm⟩ := Option.map_eq_some_iff.mp hmap
    obtain ⟨rfl, -⟩ := Prod.mk.inj hm
    exact (hQ a).mpr (hall hidle a ha)

/-- The transaction of a call leaves the sums in order just if the call keeps them. -/
theorem statements_summed (h : st.Summed strHash) (op : DbOp) :
    (∀ m res, op.statements sq strHash st = some (m, res) →
        LeavesSummed strHash (transaction m) st) ↔ KeepsSums sq strHash st op := by
  simp only [transaction_summed h]
  cases op with
  | checkAndCreate name isDir =>
    have hsums : ∀ c : Option ServerDb.ParentRow × UInt64,
        LeavesSummed strHash (createStatements sq strHash name isDir c.2 c.1) st.begun ↔
          CreateSums sq strHash name isDir c.2 c.1 st := fun c => createSums_iff h isDir c.2 c.1
    simp only [DbOp.statements, KeepsSums]
    rw [lookedUp_summed hsums]
    exact imp_congr_right fun _ => Prod.forall
  | checkAndDelete name n =>
    simp only [DbOp.statements, Option.bind_eq_some_iff, Option.map_eq_some_iff, KeepsSums]
    constructor
    · intro hall hidle row parent hrow hparent
      exact (deleteSums_iff h parent).mp (hall _ _ ⟨row, hrow, parent, hparent, rfl⟩ hidle)
    · rintro hall m res ⟨row, hrow, parent, hparent, hm⟩ hidle
      obtain ⟨rfl, -⟩ := Prod.mk.inj hm
      exact (deleteSums_iff h parent).mpr (hall hidle row parent hrow hparent)
  | checkAndUpdate name n content =>
    simp only [DbOp.statements, KeepsSums]
    exact lookedUp_summed fun row => updateSums_iff (Store.summed_begun.mpr h) _
  | testAndSetLockOwner name n clientId =>
    simp only [DbOp.statements, KeepsSums]
    exact lookedUp_summed fun row => lockSums_iff h clientId _
  | resetLockOwner name n =>
    simp only [DbOp.statements, KeepsSums]
    exact lookedUp_summed fun row => unlockSums_iff h
  | _ =>
    refine iff_of_true (fun m res hm => ?_) trivial
    cases hm

/-- A call leaves the sums in order just if it keeps them. -/
theorem step_summed_iff (h : st.Summed strHash) {op : DbOp} {st' : Store}
    (hstep : op.step sq strHash st = some st') :
    st'.Summed strHash ↔ KeepsSums sq strHash st op := by
  rw [← statements_summed h]
  have hends : op.Transacts sq strHash st (op.run sq strHash st) := call_transacts op
  unfold DbOp.step at hstep
  generalize op.run sq strHash st = o at hends hstep
  cases hends with
  | left hnone =>
    obtain rfl := Option.some.inj hstep
    refine iff_of_true h fun m res hm => ?_
    rw [hnone] at hm
    cases hm
  | @stopped e hnone =>
    have hsame : st' = st := by
      cases e with
      | exception => exact (Option.some.inj hstep).symm
      | assertion => cases hstep
    rw [hsame]
    refine iff_of_true h fun m res hm => ?_
    rw [hnone] at hm
    cases hm
  | @ran m res hm _ =>
    have hiff : LeavesSummed strHash (transaction m) st ↔ st'.Summed strHash := by
      unfold LeavesSummed wp
      cases hrun : transaction m st with
      | ret a s =>
        rw [hrun] at hstep
        obtain rfl := Option.some.inj hstep
        exact Iff.rfl
      | stop e s =>
        rw [hrun] at hstep
        cases e with
        | exception =>
          obtain rfl := Option.some.inj hstep
          exact Iff.rfl
        | assertion => cases hstep
    rw [← hiff]
    constructor
    · intro hsums m' res' hm'
      rw [hm] at hm'
      obtain ⟨rfl, -⟩ := Prod.mk.inj (Option.some.inj hm')
      exact hsums
    · intro hall
      exact hall m res hm

/-- What is read is a row's content with that row's checksum. -/
theorem Store.Summed.checksumsMatch (h : st.Summed strHash) : ChecksumsMatch sq strHash st := by
  intro f n r hr hquery content metaData st' hread
  rw [checkAndRead_checked] at hread
  change checked st none _ n (query sq readColumns f st) = _ at hread
  rw [hquery] at hread
  simp only [checked] at hread
  split_ifs at hread with hn
  · cases hread
    exact h r hr
  · cases hread

theorem summed_reachable (hrun : (ServerDb.calls sq strHash .empty).Reach
    (KeepsSums sq strHash) st) : st.Summed strHash := by
  refine hrun.invariant (I := Store.Summed strHash) ?_ ?_
  · rintro st rfl r hr
    cases hr
  · intro st st' op _ hst hop hstep
    exact (step_summed_iff hst hstep).mpr hop

end Calls

/-- An update of the node that the name alone selects, with a content that is stored
    as it is, keeps the sums just if the hash is a number of 32 bits with a sign. -/
theorem keepsSums_update_iff {sq : Engine} {strHash : Str → UInt64} {st : Store}
    {name content : Str}
    (hidle : st.inTransaction = false) (hname : Plain name) {r : FsRow}
    (hrow : st.row name = some r)
    (hcontent : ∀ r' ∈ st.fs, r'.name = name → Carries content r') :
    KeepsSums sq strHash st (.checkAndUpdate name (UInt64.ofInt r.instanceNumber) content) ↔
      (strHash content).toNat < 2 ^ 31 ∨ 2 ^ 64 - 2 ^ 31 ≤ (strHash content).toNat := by
  have hmem := Store.row_mem hrow
  have hselected := Store.row_name hrow
  have hquoted := (hcontent r hmem hselected).quoted
  have hfound : updatedRow sq name (UInt64.ofInt r.instanceNumber) st = some r := by
    simp [updatedRow, query_plain sq hname, hrow, numbered]
  rw [← printfD_readBack_iff]
  simp only [KeepsSums, hfound, UpdateSums, hquoted, hname.quoted, nameIs_plain hname, SumsAs]
  constructor
  · intro h
    have hsums := h hidle r rfl r hmem (by simpa using hselected)
    rwa [(hcontent r hmem hselected).column] at hsums
  · intro h _ _ _ r' hr' hname'
    rw [(hcontent r' hr' (by simpa using hname')).column]
    exact h

/-- In every run whose calls keep the sums whoever reads a node is given the checksum
    of its content, and a further call leaves every row with its checksum if and only
    if it keeps the sums. -/
theorem checksumsMatch_reachable {sq : Engine} {strHash : Str → UInt64} {st : Store}
    (h : (ServerDb.calls sq strHash .empty).Reach (KeepsSums sq strHash) st) :
    ChecksumsMatch sq strHash st ∧ ∀ op st', op.step sq strHash st = some st' →
      (st'.Summed strHash ↔ KeepsSums sq strHash st op) :=
  ⟨(summed_reachable h).checksumsMatch, fun _ _ hstep => step_summed_iff (summed_reachable h) hstep⟩

/-- A file written once, under the hash that counts the characters. -/
theorem checksumsMatch_written : ∃ st,
    (ServerDb.calls .refusing (fun s => UInt64.ofNat s.length) .empty).Reach
      (KeepsSums .refusing fun s => UInt64.ofNat s.length) st ∧
    (∃ metaData st', ServerDb.checkAndRead .refusing "/f".toList 1 st =
      .ret (some ("hello".toList, metaData)) st' ∧ metaData.fileContentChecksum = 5) ∧
    ChecksumsMatch .refusing (fun s => UInt64.ofNat s.length) st := by
  have hmade : (ServerDb.calls .refusing (fun s => UInt64.ofNat s.length) .empty).Reach
      (KeepsSums .refusing fun s => UInt64.ofNat s.length) oneFile := by
    refine .step (l := .checkAndCreate "/f".toList false) (.init rfl) ?_ rfl
    intro _ parent n hcreated
    obtain ⟨rfl, rfl⟩ := Prod.mk.inj (Option.some.inj hcreated)
    exact fun _ => rfl
  have hwritten : (ServerDb.calls .refusing (fun s => UInt64.ofNat s.length) .empty).Reach
      (KeepsSums .refusing fun s => UInt64.ofNat s.length)
      (oneFile.update "/f".toList (FsRow.withText "hello".toList 1 5)) := by
    refine hmade.step (l := .checkAndUpdate "/f".toList 1 "hello".toList) ?_ rfl
    intro _ row _ r hr _
    obtain rfl := List.mem_singleton.mp hr
    decide
  exact ⟨_, hwritten, ⟨_, _, rfl, rfl⟩, (checksumsMatch_reachable hwritten).1⟩

/-- A new file is read with the checksum 0, whatever the hash of the empty content is. -/
theorem not_checksumsMatch :
    ¬ ∀ (sq : Engine) (strHash : Str → UInt64) (st : Store),
      (ServerDb.calls sq strHash .empty).Reach (fun _ _ => True) st →
        ChecksumsMatch sq strHash st := by
  intro h
  have hmade : (ServerDb.calls .refusing (fun _ => 1) .empty).Reach (fun _ _ => True) oneFile :=
    .step (l := .checkAndCreate "/f".toList false) (.init rfl) trivial rfl
  have hsum := h .refusing (fun _ => 1) oneFile hmade "/f".toList 1 oneFileRow
    (List.mem_singleton.mpr rfl) rfl [] _ _ rfl
  exact absurd hsum (by decide)

end SimpleChubby
