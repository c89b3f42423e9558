import SimpleChubby.ServerDb.Generations

/-!
# What the generation numbers count

Beside a run of calls stands a tally for each name, which begins again where a
node of the name is made: how often its lock has gone from free to held, how
often its content has been written, be it by an update or for a child, and
whether a lock has been taken that has not been reset. The two generation
numbers of a row are those counts as long as they stay below 2^31 - 1.
-/

namespace SimpleChubby

open SqlText

/-! ## The tally of a node -/

/-- What is counted of a node since it was made. -/
structure Tally where
  taken : Nat
  written : Nat
  pending : Bool
  deriving DecidableEq, Repr

/-- The tally of a new node. -/
def Tally.zero : Tally := ⟨0, 0, false⟩

/-- The lock of a node goes from free to held. -/
def takes : Option FsRow → Option FsRow → Bool
  | some r, some r' => r.lockOwner == noOwner && r'.lockOwner != noOwner
  | _, _ => false

/-- The tally after a step that leads from one row to another, and may be a write
    of the content and take or reset the lock. -/
def Tally.after (t : Tally) (before after : Option FsRow) (writes : Bool) (lock : Option Bool) :
    Tally :=
  ⟨t.taken + (takes before after).toNat, t.written + writes.toNat, lock.getD t.pending⟩

/-- The method returned `true`. -/
def DbResult.success : DbResult → Bool
  | .number n => n.isSome
  | .done success => success
  | .contents r => r.isSome
  | .states _ => true

namespace DbOp

/-- The call is one that makes the node. -/
def makes (name : Str) : DbOp → Bool
  | .checkAndCreate f _ => f == name
  | _ => false

/-- The call is one that counts for the content: an update of the node, or one that
    makes or deletes a child directly under it. -/
def counts (name : Str) : DbOp → Bool
  | .checkAndCreate f _ => getParentName f == name
  | .checkAndDelete f _ => getParentName f == name
  | .checkAndUpdate f _ _ => f == name
  | _ => false

/-- Whether a lock of the node is pending after the call, where it is one that decides. -/
def locks (name : Str) : DbOp → Option Bool
  | .testAndSetLockOwner f _ _ => if f = name then some true else none
  | .resetLockOwner f _ => if f = name then some false else none
  | _ => none

/-- The call is one that only reads. -/
def reads : DbOp → Bool
  | .checkAndOpen _ => true
  | .checkAndRead _ _ => true
  | .getStates => true
  | _ => false

/-- The names of a call are ones that `checkName` accepts, its client id is decimal
    and its content carried as it stands. -/
def Ordinary : DbOp → Prop
  | .checkAndCreate name _ => checkName name = true
  | .checkAndOpen name => checkName name = true
  | .checkAndDelete name _ => checkName name = true
  | .checkAndRead name _ => checkName name = true
  | .checkAndUpdate name _ content => checkName name = true ∧ Plain content
  | .testAndSetLockOwner name _ clientId => checkName name = true ∧ Decimal clientId
  | .resetLockOwner name _ => checkName name = true
  | .getStates => True

instance : ∀ op, Decidable (Ordinary op)
  | .checkAndCreate name _ | .checkAndOpen name | .checkAndDelete name _ | .checkAndRead name _
  | .resetLockOwner name _ => inferInstanceAs (Decidable (checkName name = true))
  | .checkAndUpdate name _ content =>
    inferInstanceAs (Decidable (checkName name = true ∧ Plain content))
  | .testAndSetLockOwner name _ clientId =>
    inferInstanceAs (Decidable (checkName name = true ∧ Decimal clientId))
  | .getStates => inferInstanceAs (Decidable True)

variable (sq : Engine) (strHash : Str → UInt64)

/-- The call returns `true`. -/
def succeeds (op : DbOp) (st : Store) : Bool :=
  match op.run sq strHash st with
  | .ret res _ => res.success
  | .stop _ _ => false

end DbOp

/-- The tallies after a call that has led from one store to another. -/
def tally (sq : Engine) (strHash : Str → UInt64) (st : Store) (op : DbOp) (st' : Store)
    (tallies : Str → Tally) (name : Str) : Tally :=
  let success := op.succeeds sq strHash st
  if op.makes name && success then .zero
  else (tallies name).after (st.row name) (st'.row name) (op.counts name && success)
    (if success then op.locks name else none)

/-- The runs of calls on a new store, with the tallies. -/
def ServerDb.tallied (sq : Engine) (strHash : Str → UInt64) : Lts (Store × (Str → Tally)) DbOp :=
  (ServerDb.calls sq strHash .empty).watch (fun _ => .zero) (tally sq strHash)

/-- The generation numbers of a store have not come to the last one. -/
def BelowLast (st : Store) : Prop :=
  ∀ r ∈ st.fs, r.contentGenerationNumber < lastGeneration ∧ r.lockGenerationNumber < lastGeneration

instance (st : Store) : Decidable (BelowLast st) :=
  inferInstanceAs (Decidable (∀ r ∈ st.fs, _))

/-- The generation numbers are the counts; no lock is taken while one is pending;
    and a call that returns `false` leaves the store as it is. -/
structure CountsExactly (sq : Engine) (strHash : Str → UInt64) (st : Store)
    (tallies : Str → Tally) : Prop where
  lock : ∀ name r, st.row name = some r → r.lockGenerationNumber = (tallies name).taken
  content : ∀ name r, st.row name = some r → r.contentGenerationNumber = (tallies name).written
  separated : ∀ name, (tallies name).pending = true → ∀ n clientId st',
    ServerDb.testAndSetLockOwner sq name n clientId st ≠ .ret true st'
  unchanged : ∀ op : DbOp, op.Ordinary → ∀ res st', op.run sq strHash st = .ret res st' →
    res.success = false → st' = st

/-! ## What an ordinary call does -/

/-- What is done to the parent of a node that is made or deleted. -/
inductive ParentTouch (strHash : Str → UInt64) (st : Store) (parent : Str) : (FsRow → FsRow) → Prop
  | root : parent = root → ParentTouch strHash st parent fun r => r
  | row {p : FsRow} {content : Str} : st.row parent = some p → '"' ∉ content →
      ParentTouch strHash st parent (ServerDb.touchParent strHash content p)

/-- How an ordinary call ends. -/
inductive OrdinaryEnds (strHash : Str → UInt64) (st : Store) :
    DbOp → Outcome Fault Store DbResult → Prop
  | refused {op : DbOp} {res : DbResult} : res.success = false →
      OrdinaryEnds strHash st op (.ret res st)
  | read {op : DbOp} {res : DbResult} : op.reads = true → OrdinaryEnds strHash st op (.ret res st)
  | crashed {op : DbOp} {st' : Store} : OrdinaryEnds strHash st op (.stop .assertion st')
  | made {name : Str} {isDir : Bool} {n : UInt64} {f : FsRow → FsRow} : NameOk name →
      st.row name = none → ParentTouch strHash st (getParentName name) f →
      OrdinaryEnds strHash st (.checkAndCreate name isDir)
        (.ret (.number (some n)) ((st.create name isDir n).update (getParentName name) f))
  | deleted {name : Str} {n : UInt64} {r : FsRow} {f : FsRow → FsRow} : NameOk name →
      st.row name = some r → r.lockOwner = noOwner →
      ParentTouch strHash st (getParentName name) f →
      OrdinaryEnds strHash st (.checkAndDelete name n)
        (.ret (.done true) ((st.remove name).update (getParentName name) f))
  | updated {name : Str} {n : UInt64} {content : Str} {r : FsRow} : st.row name = some r →
      '"' ∉ content → OrdinaryEnds strHash st (.checkAndUpdate name n content)
        (.ret (.done true) (st.update name (ServerDb.touchParent strHash content r)))
  | locked {name : Str} {n : UInt64} {clientId : Str} {r : FsRow} : Decimal clientId →
      st.row name = some r → r.lockOwner = noOwner →
      OrdinaryEnds strHash st (.testAndSetLockOwner name n clientId)
        (.ret (.done true) (st.update name
          (FsRow.withOwner clientId (UInt64.ofInt r.lockGenerationNumber + 1))))
  | unlocked {name : Str} {n : UInt64} {r : FsRow} : st.row name = some r →
      OrdinaryEnds strHash st (.resetLockOwner name n)
        (.ret (.done true) (st.update name FsRow.withoutOwner))

section Ends

variable {sq : Engine} {strHash : Str → UInt64} {st : Store}

theorem ordinary_ends (hst : st.Ready) {op : DbOp} (h : op.Ordinary) :
    OrdinaryEnds strHash st op (op.run sq strHash st) := by
  cases op with
  | checkAndCreate name isDir =>
    have hname : NameOk name := checkName_iff.mp h
    have hends := ServerDb.checkAndCreate_ends sq strHash hst hname isDir
    simp only [DbOp.run]
    generalize ServerDb.checkAndCreate sq strHash name isDir st = o at hends
    cases hends with
    | present _ => exact .refused rfl
    | noParent _ _ _ => exact .refused rfl
    | fileParent _ _ _ _ => exact .refused rfl
    | @top m hrow hroot _ =>
      have hends : OrdinaryEnds strHash st (.checkAndCreate name isDir) _ :=
        .made (n := UInt64.ofInt m + 1) hname hrow (.root hroot)
      rw [Store.update_id] at hends
      exact hends
    | nested hrow _ hp _ _ =>
      have hquote := ServerDb.no_quote_cons (hst.contents _ (Store.row_mem hp)) hname
      exact .made hname hrow (.row hp hquote)
  | checkAndOpen name =>
    simp only [DbOp.run, ServerDb.checkAndOpen_eq sq (checkName_iff.mp h)]
    exact .read rfl
  | checkAndDelete name n =>
    have hname : NameOk name := checkName_iff.mp h
    have hends := ServerDb.checkAndDelete_ends sq strHash hst hname n
    simp only [DbOp.run]
    generalize ServerDb.checkAndDelete sq strHash name n st = o at hends
    cases hends with
    | absent _ => exact .refused rfl
    | refused _ _ => exact .refused rfl
    | badParent _ _ _ => exact .crashed
    | top hrow howner _ _ hroot =>
      have hends : OrdinaryEnds strHash st (.checkAndDelete name n) _ :=
        .deleted hname hrow howner (.root hroot)
      rw [Store.update_id] at hends
      exact hends
    | nested hrow howner _ _ _ hp _ =>
      have hquote := ServerDb.no_quote_delete (hst.contents _ (Store.row_mem hp)) name
      exact .deleted hname hrow howner (.row hp hquote)
  | checkAndRead name n =>
    obtain ⟨r, hr⟩ : ∃ r, ServerDb.checkAndRead sq name n st = .ret r st :=
      ServerDb.checkAndRead_store sq (checkName_iff.mp h) n
    simp only [DbOp.run, hr]
    exact .read rfl
  | checkAndUpdate name n content =>
    have hquote : '"' ∉ content := (quoted_eq_self_iff.mp h.2.quoted).1
    have hends := ServerDb.checkAndUpdate_ends sq strHash hst (checkName_iff.mp h.1) n hquote
    simp only [DbOp.run]
    generalize ServerDb.checkAndUpdate sq strHash name n content st = o at hends
    cases hends with
    | refused _ => exact .refused rfl
    | updated hrow _ => exact .updated hrow hquote
  | testAndSetLockOwner name n clientId =>
    have hends := ServerDb.testAndSetLockOwner_ends sq hst (checkName_iff.mp h.1) n h.2.quote
    simp only [DbOp.run]
    generalize ServerDb.testAndSetLockOwner sq name n clientId st = o at hends
    cases hends with
    | refused _ => exact .refused rfl
    | locked hrow _ hfree => exact .locked h.2 hrow hfree
  | resetLockOwner name n =>
    have hends := ServerDb.resetLockOwner_ends sq hst (checkName_iff.mp h) n
    simp only [DbOp.run]
    generalize ServerDb.resetLockOwner sq name n st = o at hends
    cases hends with
    | refused _ => exact .refused rfl
    | unlocked hrow _ => exact .unlocked hrow
  | getStates => exact .read rfl

theorem ParentTouch.ready {parent : Str} {f : FsRow → FsRow} (h : ParentTouch strHash st parent f)
    {st' : Store} (hst' : st'.Ready) : (st'.update parent f).Ready := by
  cases h with
  | root _ =>
    rw [Store.update_id]
    exact hst'
  | row _ hquote => exact hst'.withContent hquote _ _

/-- An ordinary call leaves the store well formed. -/
theorem OrdinaryEnds.ready {op : DbOp} {res : DbResult} {st' : Store}
    (h : OrdinaryEnds strHash st op (.ret res st')) (hst : st.Ready) : st'.Ready := by
  cases h with
  | refused _ => exact hst
  | read _ => exact hst
  | made hname hrow hparent => exact hparent.ready (hst.create hname hrow _ _)
  | deleted _ _ _ hparent => exact hparent.ready hst.remove
  | updated _ hquote => exact hst.withContent hquote _ _
  | locked hdecimal _ _ => exact hst.withOwner hdecimal.quote _
  | unlocked _ => exact hst.withoutOwner

end Ends

/-! ## The row of a node and its tally -/

theorem stable_touchParent (strHash : Str → UInt64) (content : Str) (p : FsRow) :
    FsRow.Stable (ServerDb.touchParent strHash content p) := FsRow.stable_withContent _ _ _

/-- The row of a node is what its tally says. Without a row no lock is pending. -/
structure Agrees (row : Option FsRow) (t : Tally) : Prop where
  taken : ∀ r ∈ row, r.lockGenerationNumber = t.taken
  written : ∀ r ∈ row, r.contentGenerationNumber = t.written
  pending : t.pending = true → ∃ r ∈ row, r.lockOwner ≠ noOwner

section Tallies

variable {strHash : Str → UInt64} {st st' : Store} {row : Option FsRow} {r : FsRow} {t : Tally}

/-- A number below the last is followed by the next. -/
theorem printfD_next {m : Nat} {n : Int} (hn : n = m) (hlast : n < lastGeneration) :
    printfD (UInt64.ofInt n + 1) = (m + 1 : Nat) := by
  unfold lastGeneration at hlast
  have hnext := (next_number (m := n) (by omega) (by omega)).2.1
  rw [hnext]
  omega

theorem takes_self (row : Option FsRow) : takes row row = false := by
  cases row with
  | none => rfl
  | some r =>
    show (r.lockOwner == noOwner && r.lockOwner != noOwner) = false
    cases hfree : r.lockOwner == noOwner with
    | false => rfl
    | true => simp [beq_iff_eq.mp hfree]

/-- A row that has changed in nothing that is counted. -/
theorem Agrees.kept (h : Agrees row t) : Agrees row (t.after row row false none) := by
  have hsame : t.after row row false none = t := by
    simp [Tally.after, takes_self]
  rw [hsame]
  exact h

/-- Where there is no row nothing is said of the counts. -/
theorem Agrees.absent (h : Agrees none t) (before : Option FsRow) (writes : Bool) :
    Agrees none (t.after before none writes none) := by
  refine ⟨nofun, nofun, fun hpending => ?_⟩
  obtain ⟨r, hr, _⟩ := h.pending hpending
  cases hr

/-- A node is deleted, which is free. -/
theorem Agrees.removed (h : Agrees (some r) t) (hfree : r.lockOwner = noOwner) (writes : Bool) :
    Agrees none (t.after (some r) none writes none) := by
  refine ⟨nofun, nofun, fun hpending => ?_⟩
  obtain ⟨r', hr, howner⟩ := h.pending hpending
  obtain rfl := Option.some.inj hr
  exact absurd hfree howner

theorem agrees_newRow (st : Store) (name : Str) (isDir : Bool) (n : UInt64) :
    Agrees (some (st.newRow name isDir n)) .zero where
  taken r hr := by
    obtain rfl := Option.some.inj hr
    rfl
  written r hr := by
    obtain rfl := Option.some.inj hr
    rfl
  pending h := by cases h

/-- The content of a row is written. -/
theorem Agrees.touched (h : Agrees (some r) t) (hlast : r.contentGenerationNumber < lastGeneration)
    (content : Str) :
    Agrees (some (ServerDb.touchParent strHash content r r))
      (t.after (some r) (some (ServerDb.touchParent strHash content r r)) true none) where
  taken r' hr := by
    obtain rfl := Option.some.inj hr
    have hself : takes (some r) (some (ServerDb.touchParent strHash content r r)) = false :=
      takes_self (some r)
    show r.lockGenerationNumber = _
    rw [h.taken r rfl, Tally.after, hself]
    rfl
  written r' hr := by
    obtain rfl := Option.some.inj hr
    exact printfD_next (h.written r rfl) hlast
  pending hpending := by
    obtain ⟨r', hr, howner⟩ := h.pending hpending
    obtain rfl := Option.some.inj hr
    exact ⟨_, rfl, howner⟩

/-- A client takes the lock. -/
theorem Agrees.locked (h : Agrees (some r) t) (hlast : r.lockGenerationNumber < lastGeneration)
    (hfree : r.lockOwner = noOwner) {clientId : Str} (hdecimal : Decimal clientId) :
    Agrees (some (r.withOwner clientId (UInt64.ofInt r.lockGenerationNumber + 1)))
      (t.after (some r) (some (r.withOwner clientId (UInt64.ofInt r.lockGenerationNumber + 1)))
        false (some true)) := by
  have howner : (r.withOwner clientId (UInt64.ofInt r.lockGenerationNumber + 1)).lockOwner =
      clientId := hdecimal.textValue r
  have htakes : takes (some r)
      (some (r.withOwner clientId (UInt64.ofInt r.lockGenerationNumber + 1))) = true := by
    simp [takes, hfree, howner, hdecimal.ne_noOwner]
  refine ⟨fun r' hr => ?_, fun r' hr => ?_, fun _ => ?_⟩
  · obtain rfl := Option.some.inj hr
    rw [Tally.after, htakes]
    exact printfD_next (h.taken r rfl) hlast
  · obtain rfl := Option.some.inj hr
    exact h.written r rfl
  · refine ⟨_, rfl, ?_⟩
    rw [howner]
    exact hdecimal.ne_noOwner

/-- The lock is reset. -/
theorem Agrees.unlocked (h : Agrees (some r) t) :
    Agrees (some r.withoutOwner) (t.after (some r) (some r.withoutOwner) false (some false)) where
  taken r' hr := by
    obtain rfl := Option.some.inj hr
    have hfree : takes (some r) (some r.withoutOwner) = false := by
      simp [takes, FsRow.withoutOwner]
    show r.lockGenerationNumber = _
    rw [h.taken r rfl, Tally.after, hfree]
    rfl
  written r' hr := by
    obtain rfl := Option.some.inj hr
    exact h.written r rfl
  pending hpending := by cases hpending

/-- Only the row of the parent is touched. -/
theorem ParentTouch.row_other {parent name : Str} {f : FsRow → FsRow}
    (h : ParentTouch strHash st parent f) (hne : name ≠ parent) :
    (st'.update parent f).row name = st'.row name := by
  have hf : ∀ r, (f r).name = r.name := by
    cases h with
    | root _ => exact fun _ => rfl
    | row _ _ => exact fun _ => rfl
  rw [Store.row_update hf, if_neg hne]

/-- The row of another node after its child has been made or deleted. -/
theorem Agrees.parent {parent name : Str} {f : FsRow → FsRow} (h : Agrees (st.row name) t)
    (hst : st.Ready) (hlast : BelowLast st) (hparent : ParentTouch strHash st parent f)
    (hrow : st'.row name = st.row name) :
    Agrees ((st'.update parent f).row name)
      (t.after (st.row name) ((st'.update parent f).row name) (parent == name) none) := by
  by_cases hname : parent = name
  · subst hname
    rw [beq_self_eq_true]
    cases hparent with
    | root hroot =>
      -- the root has no row
      have hnone : st.row parent = none := by
        cases hp : st.row parent with
        | none => rfl
        | some p =>
          have hok := hst.names p (Store.row_mem hp)
          exact absurd ((Store.row_name hp).trans hroot) hok.ne_root
      rw [Store.update_id, hrow, hnone]
      exact (hnone ▸ h).absent none true
    | @row p content hp _ =>
      have hrow' : (st'.update parent (ServerDb.touchParent strHash content p)).row parent =
          some (ServerDb.touchParent strHash content p p) := by
        rw [Store.row_update (stable_touchParent _ _ _).name, if_pos rfl, hrow, hp]
        rfl
      rw [hrow', hp]
      exact (hp ▸ h).touched (hlast p (Store.row_mem hp)).1 content
  · have hkept : (st'.update parent f).row name = st.row name :=
      (hparent.row_other (Ne.symm hname)).trans hrow
    rw [hkept, beq_eq_false_iff_ne.mpr hname]
    exact h.kept

end Tallies

/-! ## A run of calls -/

/-- A well-formed store each of whose rows is what its tally says. -/
structure Reckoned (w : Store × (Str → Tally)) : Prop where
  ready : w.1.Ready
  agrees : ∀ name, Agrees (w.1.row name) (w.2 name)

section Runs

variable {sq : Engine} {strHash : Str → UInt64} {w w' : Store × (Str → Tally)}

theorem tally_of_run {op : DbOp} {st st' : Store} {res : DbResult}
    (hrun : op.run sq strHash st = .ret res st') (tallies : Str → Tally) (name : Str) :
    tally sq strHash st op st' tallies name =
      if op.makes name && res.success then .zero
      else (tallies name).after (st.row name) (st'.row name) (op.counts name && res.success)
        (if res.success then op.locks name else none) := by
  have hsuccess : op.succeeds sq strHash st = res.success := by
    unfold DbOp.succeeds
    rw [hrun]
  unfold tally
  rw [hsuccess]

/-- A call that only reads counts for nothing. -/
theorem DbOp.reads_counts {op : DbOp} (h : op.reads = true) (name : Str) :
    op.makes name = false ∧ op.counts name = false ∧ op.locks name = none := by
  cases op with
  | checkAndOpen _ => exact ⟨rfl, rfl, rfl⟩
  | checkAndRead _ _ => exact ⟨rfl, rfl, rfl⟩
  | getStates => exact ⟨rfl, rfl, rfl⟩
  | _ => cases h

theorem OrdinaryEnds.agrees {op : DbOp} {st st' : Store} {res : DbResult}
    (h : OrdinaryEnds strHash st op (.ret res st')) (hst : st.Ready) (hlast : BelowLast st)
    {tallies : Str → Tally} (hagrees : ∀ name, Agrees (st.row name) (tallies name)) (name : Str) :
    Agrees (st'.row name)
      (if op.makes name && res.success then .zero
        else (tallies name).after (st.row name) (st'.row name) (op.counts name && res.success)
          (if res.success then op.locks name else none)) := by
  have hname := hagrees name
  cases h with
  | refused hfalse =>
    rw [hfalse, Bool.and_false, Bool.and_false]
    exact hname.kept
  | read hreads =>
    obtain ⟨hmakes, hcounts, hlocks⟩ := DbOp.reads_counts hreads name
    rw [hmakes, hcounts, hlocks, ite_self]
    exact hname.kept
  | @made child isDir n f hok hnone hparent =>
    simp only [DbOp.makes, DbOp.counts, DbOp.locks, DbResult.success, Option.isSome_some,
      Bool.and_true, if_true]
    by_cases hchild : name = child
    · subst hchild
      have hnew : ((st.create name isDir n).update (getParentName name) f).row name =
          some (st.newRow name isDir n) := by
        rw [hparent.row_other (getParentName_ne hok).symm, Store.row_create hnone, if_pos rfl]
      rw [hnew, beq_self_eq_true, if_pos rfl]
      exact agrees_newRow _ _ _ _
    · have hrow : (st.create child isDir n).row name = st.row name := by
        rw [Store.row_create hnone, if_neg hchild]
      rw [beq_eq_false_iff_ne.mpr (Ne.symm hchild)]
      exact hname.parent hst hlast hparent hrow
  | @deleted child n r f hok hrow hfree hparent =>
    simp only [DbOp.makes, DbOp.counts, DbOp.locks, DbResult.success, Bool.and_true,
      if_true, Bool.false_eq_true, if_false]
    by_cases hchild : name = child
    · subst hchild
      have hgone : ((st.remove name).update (getParentName name) f).row name = none := by
        rw [hparent.row_other (getParentName_ne hok).symm, Store.row_remove, if_pos rfl]
      rw [hgone, hrow]
      exact (hrow ▸ hname).removed hfree _
    · have hkept : (st.remove child).row name = st.row name := by
        rw [Store.row_remove, if_neg hchild]
      exact hname.parent hst hlast hparent hkept
  | @updated f n content r hrow _ =>
    simp only [DbOp.makes, DbOp.counts, DbOp.locks, DbResult.success, Bool.and_true,
      if_true, Bool.false_eq_true, if_false]
    rw [Store.row_update (stable_touchParent _ _ _).name]
    by_cases hf : name = f
    · subst hf
      rw [if_pos rfl, hrow, beq_self_eq_true]
      exact (hrow ▸ hname).touched (hlast r (Store.row_mem hrow)).1 content
    · rw [if_neg hf, beq_eq_false_iff_ne.mpr (Ne.symm hf)]
      exact hname.kept
  | @locked f n clientId r hdecimal hrow hfree =>
    simp only [DbOp.makes, DbOp.counts, DbOp.locks, DbResult.success, Bool.false_and, if_true,
      Bool.false_eq_true, if_false]
    rw [Store.row_update (FsRow.stable_withOwner _ _).name]
    by_cases hf : name = f
    · subst hf
      rw [if_pos rfl, if_pos rfl, hrow]
      exact (hrow ▸ hname).locked (hlast r (Store.row_mem hrow)).2 hfree hdecimal
    · rw [if_neg hf, if_neg (Ne.symm hf)]
      exact hname.kept
  | @unlocked f n r hrow =>
    simp only [DbOp.makes, DbOp.counts, DbOp.locks, DbResult.success, Bool.false_and, if_true,
      Bool.false_eq_true, if_false]
    rw [Store.row_update FsRow.stable_withoutOwner.name]
    by_cases hf : name = f
    · subst hf
      rw [if_pos rfl, if_pos rfl, hrow]
      exact (hrow ▸ hname).unlocked
    · rw [if_neg hf, if_neg (Ne.symm hf)]
      exact hname.kept

theorem Reckoned.step {op : DbOp} (h : Reckoned w) (hop : op.Ordinary) (hlast : BelowLast w.1)
    (hstep : (ServerDb.tallied sq strHash).step op w = some w') : Reckoned w' := by
  obtain ⟨hcall, htally⟩ := Lts.watch_step hstep
  have hends : OrdinaryEnds strHash w.1 op (op.run sq strHash w.1) := ordinary_ends h.ready hop
  change DbOp.step sq strHash op w.1 = some w'.1 at hcall
  unfold DbOp.step at hcall
  generalize hrun : op.run sq strHash w.1 = o at hends hcall
  cases o with
  | ret res st' =>
    have hst' : st' = w'.1 := Option.some.inj hcall
    subst hst'
    refine ⟨hends.ready h.ready, fun name => ?_⟩
    rw [htally, tally_of_run hrun]
    exact hends.agrees h.ready hlast h.agrees name
  | stop e st' =>
    cases hends with
    | crashed => cases hcall

theorem reckoned_first : Reckoned (Store.empty, fun _ => Tally.zero) where
  ready := Store.ready_empty
  agrees _ := ⟨nofun, nofun, nofun⟩

theorem Reckoned.countsExactly (h : Reckoned w) : CountsExactly sq strHash w.1 w.2 where
  lock name r hrow := (h.agrees name).taken r hrow
  content name r hrow := (h.agrees name).written r hrow
  separated name hpending n clientId st' := by
    obtain ⟨r, hrow, howner⟩ := (h.agrees name).pending hpending
    have hplain : Plain name := Store.row_name hrow ▸ (h.ready.names r (Store.row_mem hrow)).plain
    rw [testAndSetLockOwner_held sq hplain hrow howner]
    exact nofun
  unchanged op hop res st' hrun hfalse := by
    have hends : OrdinaryEnds strHash w.1 op (op.run sq strHash w.1) := ordinary_ends h.ready hop
    rw [hrun] at hends
    cases hends with
    | refused _ => rfl
    | read _ => rfl
    | _ => cases hfalse

end Runs

/-- In every run of ordinary calls the generation numbers count exactly, as long
    as they stay below the last one. -/
theorem countsExactly_reachable (sq : Engine) (strHash : Str → UInt64)
    (w : Store × (Str → Tally))
    (h : (ServerDb.tallied sq strHash).Reach (fun w op => op.Ordinary ∧ BelowLast w.1) w) :
    CountsExactly sq strHash w.1 w.2 := by
  have hreckoned : Reckoned w := by
    refine h.invariant (I := Reckoned) ?_ ?_
    · rintro ⟨st, tallies⟩ ⟨hst, htallies⟩
      obtain rfl : st = .empty := hst
      obtain rfl : tallies = fun _ => .zero := htallies
      exact reckoned_first
    · rintro w w' op _ hw ⟨hop, hlast⟩ hstep
      exact hw.step hop hlast hstep
  exact hreckoned.countsExactly

/-- A file in a directory is written, locked twice, deleted, made again and locked. -/
def busyRun : List DbOp :=
  [.checkAndCreate "/d".toList true, .checkAndCreate "/d/f".toList false,
    .checkAndUpdate "/d/f".toList 2 "hello".toList, .testAndSetLockOwner "/d/f".toList 2 ['1'],
    .testAndSetLockOwner "/d/f".toList 2 ['2'], .resetLockOwner "/d/f".toList 2,
    .testAndSetLockOwner "/d/f".toList 2 ['2'], .resetLockOwner "/d/f".toList 2,
    .checkAndDelete "/d/f".toList 2, .checkAndCreate "/d/f".toList false,
    .testAndSetLockOwner "/d/f".toList 3 ['1']]

theorem countsExactly_busyRun : ∃ w,
    (ServerDb.tallied .refusing fun _ => 0).exec (fun w op => op.Ordinary ∧ BelowLast w.1) busyRun
      (.empty, fun _ => .zero) = some w ∧
    w.2 "/d".toList = ⟨0, 3, false⟩ ∧ w.2 "/d/f".toList = ⟨1, 0, true⟩ ∧
      CountsExactly .refusing (fun _ => 0) w.1 w.2 := by
  have hrun : ((ServerDb.tallied .refusing fun _ => 0).exec
      (fun w op => op.Ordinary ∧ BelowLast w.1) busyRun (.empty, fun _ => .zero)).map
        (fun w => (w.2 "/d".toList, w.2 "/d/f".toList)) =
      some (⟨0, 3, false⟩, ⟨1, 0, true⟩) := by decide
  have hfirst : (ServerDb.tallied .refusing fun _ => 0).init (.empty, fun _ => .zero) := ⟨rfl, rfl⟩
  obtain ⟨w, hw, htallies⟩ := Option.map_eq_some_iff.mp hrun
  exact ⟨w, hw, congrArg Prod.fst htallies, congrArg Prod.snd htallies,
    countsExactly_reachable .refusing (fun _ => 0) w (.exec (.init hfirst) hw)⟩

end SimpleChubby
