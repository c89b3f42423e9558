import Mathlib
import SimpleChubby.Leader.Locks
import SimpleChubby.ServerDb.Tree

/-!
# The name space

The store of a leader is a tree as long as the content column of a directory is
what `checkAndCreate` and `checkAndDelete` made of it: `checkAndDelete` reads
off that column whether a directory is empty, and `setContents` writes it for a
directory as for a file.
-/

namespace SimpleChubby

open SqlText

/-- The parent of a node is `/`, or a directory that exists. -/
def Store.Rooted (st : Store) : Prop :=
  ∀ r ∈ st.fs, getParentName r.name = root ∨
    ∃ p ∈ st.fs, p.name = getParentName r.name ∧ p.isDirectory = 1

instance (st : Store) : Decidable st.Rooted :=
  inferInstanceAs (Decidable (∀ r ∈ st.fs, _))

/-- The directories with a child in one store are still there in another. -/
def Store.KeepsParents (st st' : Store) : Prop :=
  ∀ d ∈ st.fs, d.isDirectory = 1 → (∃ r ∈ st.fs, getParentName r.name = d.name) →
    ∃ d' ∈ st'.fs, d'.name = d.name ∧ d'.instanceNumber = d.instanceNumber

instance (st st' : Store) : Decidable (st.KeepsParents st') :=
  inferInstanceAs (Decidable (∀ d ∈ st.fs, _))

/-- Sessions start, open nodes, and delete nodes and set contents through
    handles that `fileOpen` has returned. -/
def NameSpaceCall (st : Leader Store) : Input → Prop
  | .rpc _ _ (.startSession _) => True
  | .rpc _ _ (.fileOpen _ _) => True
  | .rpc _ _ (.fileDelete fd) => fd ∈ (handlesSent st.log).map Prod.snd
  | .rpc _ _ (.setContents fd _) => fd ∈ (handlesSent st.log).map Prod.snd
  | _ => False

/-- A content that is set does not end its quoted token early, and is not that
    of a directory. -/
def Filed (st : Leader Store) : Input → Prop
  | .rpc _ _ (.setContents fd content) => quoted content ≠ none ∧
      ∀ r ∈ st.db.fs, r.name = fd.fileName →
        UInt64.ofInt r.instanceNumber = wire fd.instanceNumber → r.isDirectory = 0
  | _ => True

instance (st : Leader Store) (input : Input) : Decidable (NameSpaceCall st input) := by
  unfold NameSpaceCall
  cases input with
  | rpc session xid request => cases request <;> infer_instance
  | disconnect session => infer_instance
  | initializeLeader => infer_instance

instance (st : Leader Store) (input : Input) : Decidable (Filed st input) := by
  unfold Filed
  cases input with
  | rpc session xid request => cases request <;> infer_instance
  | disconnect session => infer_instance
  | initializeLeader => infer_instance

/-! ## The invariant -/

/-- The store of a leader without its history of names. -/
abbrev Store.tree (st : Store) : Tree := ⟨st, st.fs.map FsRow.name⟩

/-- What the calls of such a run rely on and keep. -/
structure Store.Filing (st : Store) : Prop where
  idle : st.inTransaction = false
  counter : ∃ m, st.maxInstanceNumber = some m
  shape : Shape st.tree

/-- The invariant of the runs that set contents of files only. -/
structure SpaceOk (st : Leader Store) : Prop where
  filing : st.db.Filing
  accepted : SendsAccepted st.log

theorem Shape.self {t : Tree} (h : Shape t) : Shape t.store.tree := by
  have hnodes := h.nodes
  obtain ⟨store, nodes⟩ := t
  dsimp only at hnodes
  subst hnodes
  exact h

section Calls

variable {sq : Engine} {strHash : Str → UInt64} {stillNamed : FdRecord → Bool} {st db : Store}
  {name : Str}

theorem Store.KeepsParents.refl (st : Store) : st.KeepsParents st :=
  fun d hd _ _ => ⟨d, hd, rfl, rfl⟩

/-- A row stays through an update, with its name and instance number. -/
theorem Store.survives {f : FsRow → FsRow} (hf : FsRow.Stable f) {d : FsRow} (hd : d ∈ st.fs) :
    ∃ d' ∈ (st.update name f).fs, d'.name = d.name ∧ d'.instanceNumber = d.instanceNumber := by
  refine ⟨if d.name = name then f d else d, Store.mem_update.mpr ⟨d, hd, rfl⟩, ?_⟩
  split_ifs
  · exact ⟨hf.name d, hf.instanceNumber d⟩
  · exact ⟨rfl, rfl⟩

/-- The content of a directory of such a store holds no quote. -/
theorem Store.Filing.parentQuote (h : st.Filing) (p : FsRow)
    (hp : st.row (getParentName name) = some p) (hdir : p.isDirectory ≠ 0) : '"' ∉ p.content :=
  h.shape.quote (Store.row_mem hp) (h.shape.directory (Store.row_mem hp) hdir)

/-- How a call ends on such a store: the tree is kept, or an assertion fails. -/
inductive Files (st : Store) {α : Type} : Outcome Fault Store α → Prop
  | kept {r : α} {db : Store} : db.Filing → st.KeepsParents db → Files st (.ret r db)
  | crashed {db : Store} : Files st (.stop .assertion db)

theorem Files.same (h : st.Filing) {α : Type} {r : α} : Files st (.ret r st) := .kept h (.refl st)

theorem Files.map {α β : Type} {o : Outcome Fault Store α} (h : Files st o) (f : α → β) :
    Files st (o.map f) := by
  cases h with
  | kept hfiling hkeeps => exact .kept hfiling hkeeps
  | crashed => exact .crashed

/-- A call the service makes keeps the tree, whether it returns or throws. -/
theorem Files.called {α : Type} {op : Prog Fault Store α} (h : Files st (op st)) {r : Option α}
    (hcall : Called op st r db) : db.Filing ∧ st.KeepsParents db := by
  cases hcall with
  | returned hrun =>
    rw [hrun] at h
    cases h with
    | kept hfiling hkeeps => exact ⟨hfiling, hkeeps⟩
  | threw hrun =>
    rw [hrun] at h
    cases h

section Specs

variable (sq strHash) (h : st.Filing) (hname : NameOk name)

include h hname

theorem files_checkAndCreate (isDir : Bool) :
    Files st (ServerDb.checkAndCreate sq strHash name isDir st) := by
  have hends := ServerDb.checkAndCreate_cases sq strHash h.idle h.counter hname h.parentQuote isDir
  generalize ServerDb.checkAndCreate sq strHash name isDir st = o at hends
  cases hends with
  | present _ => exact .same h
  | noParent _ _ _ => exact .same h
  | fileParent _ _ _ _ => exact .same h
  | @top m hrow hroot hm =>
    have hcounter : ∃ m', (st.create name isDir (UInt64.ofInt m + 1)).maxInstanceNumber =
        some m' := ⟨_, by rw [Store.create, hm]; rfl⟩
    have hends : ServerDb.CreateEnds strHash name isDir st.tree.store _ := .top hrow hroot hm
    refine .kept ⟨h.idle, hcounter, (h.shape.create strHash hname hends).self⟩ fun d hd _ _ => ?_
    exact ⟨d, Store.mem_create.mpr (Or.inl hd), rfl, rfl⟩
  | @nested m p hrow hroot hp hdir hm =>
    have hcounter : ∃ m', (st.create name isDir (UInt64.ofInt m + 1)).maxInstanceNumber =
        some m' := ⟨_, by rw [Store.create, hm]; rfl⟩
    have hends : ServerDb.CreateEnds strHash name isDir st.tree.store _ :=
      .nested hrow hroot hp hdir hm
    refine .kept ⟨h.idle, hcounter, (h.shape.create strHash hname hends).self⟩ fun d hd _ _ => ?_
    exact Store.survives (FsRow.stable_withContent _ _ _) (Store.mem_create.mpr (Or.inl hd))

theorem files_checkAndDelete (n : UInt64) :
    Files st (ServerDb.checkAndDelete sq strHash name n st) := by
  have hends := ServerDb.checkAndDelete_cases sq strHash h.idle hname h.parentQuote n
  generalize ServerDb.checkAndDelete sq strHash name n st = o at hends
  -- the node that goes has no children, so it is none of the parents
  have hkept : ∀ r, st.row name = some r → ¬ (r.isDirectory ≠ 0 ∧ r.content ≠ []) →
      ∀ d ∈ st.fs, (∃ r ∈ st.fs, getParentName r.name = d.name) → d ∈ (st.remove name).fs := by
    rintro r hrow hempty d hd ⟨child, hchild, hparent⟩
    refine Store.mem_remove.mpr ⟨hd, fun hcon => ?_⟩
    exact h.shape.childless hrow hempty child hchild (hparent.trans hcon)
  cases hends with
  | absent _ => exact .same h
  | refused _ _ => exact .same h
  | badParent _ _ _ => exact .crashed
  | top hrow howner hn hempty hroot =>
    have hends : ServerDb.DeleteEnds strHash name n st.tree.store _ :=
      .top hrow howner hn hempty hroot
    refine .kept ⟨h.idle, h.counter, (h.shape.delete strHash hends).self⟩ fun d hd _ hchild => ?_
    exact ⟨d, hkept _ hrow hempty d hd hchild, rfl, rfl⟩
  | nested hrow howner hn hempty hroot hp hpdir =>
    have hends : ServerDb.DeleteEnds strHash name n st.tree.store _ :=
      .nested hrow howner hn hempty hroot hp hpdir
    refine .kept ⟨h.idle, h.counter, (h.shape.delete strHash hends).self⟩ fun d hd _ hchild => ?_
    exact Store.survives (FsRow.stable_withContent _ _ _) (hkept _ hrow hempty d hd hchild)

/-- The content of a file is set. -/
theorem files_checkAndUpdate {n : UInt64} {content : Str} (hquoted : quoted content ≠ none)
    (hfile : ∀ r ∈ st.fs, r.name = name → UInt64.ofInt r.instanceNumber = n →
      r.isDirectory = 0) : Files st (ServerDb.checkAndUpdate sq strHash name n content st) := by
  obtain ⟨value, hvalue⟩ := Option.ne_none_iff_exists'.mp hquoted
  have hends := ServerDb.checkAndUpdate_text sq strHash h.idle hname.plain n hvalue
  generalize ServerDb.checkAndUpdate sq strHash name n content st = o at hends
  cases hends with
  | refused _ => exact .same h
  | @updated row hrow hn =>
    have hzero : row.isDirectory = 0 := hfile row (Store.row_mem hrow) (Store.row_name hrow) hn
    refine .kept ⟨h.idle, h.counter, (h.shape.update (FsRow.stable_withText _ _ _) ?_).self⟩
      fun d hd _ _ => Store.survives (FsRow.stable_withText _ _ _) hd
    intro r hr hrname hdir
    have hreq := Store.row_eq h.shape.nodup hr
    rw [hrname, hrow] at hreq
    obtain rfl := Option.some.inj hreq
    rw [hzero] at hdir
    cases hdir

theorem files_openCall (mode : Mode) :
    Files st (openCall (Service.paxos sq strHash stillNamed) name mode st) := by
  unfold openCall
  split_ifs
  · show Files st ((leaderDb sq strHash).checkAndCreate name _ st)
    rw [leaderDb_checkAndCreate]
    exact (files_checkAndCreate sq strHash h hname _).map _
  · show Files st ((leaderDb sq strHash).checkAndOpen name st)
    rw [leaderDb_checkAndOpen, ServerDb.checkAndOpen_eq sq hname]
    exact .same h

end Specs

end Calls

/-! ## The requests -/

section Requests

variable {sq : Engine} {strHash : Str → UInt64} {stillNamed : FdRecord → Bool}
  {st st' : Leader Store} {session : SessionId}
  {xid : Xid} {fd : FileHandler}

theorem OpenEnds.files {fileName : Str} {mode : Mode}
    (h : OpenEnds (Service.paxos sq strHash stillNamed) session xid fileName mode st (.ret () st'))
    (hok : st.db.Filing) : st'.db.Filing ∧ st.db.KeepsParents st'.db := by
  cases h with
  | badArg _ _ => exact ⟨hok, .refl _⟩
  | failed _ hname hcall =>
    exact (files_openCall sq strHash hok (checkName_iff.mp hname) mode).called hcall
  | opened _ hname hcall =>
    exact (files_openCall sq strHash hok (checkName_iff.mp hname) mode).called (.returned hcall)

theorem DeleteEnds.files {r : Except Unit Unit}
    (h : DeleteEnds (Service.paxos sq strHash stillNamed) session xid fd st (.ret r st'))
    (hok : st.db.Filing) (hname : NameOk fd.fileName) :
    st'.db.Filing ∧ st.db.KeepsParents st'.db := by
  have hfiles : Files st.db
      ((Service.paxos sq strHash stillNamed).db.checkAndDelete fd.fileName fd.instanceNumber
        st.db) := by
    show Files st.db ((leaderDb sq strHash).checkAndDelete _ _ _)
    rw [leaderDb_checkAndDelete]
    exact files_checkAndDelete sq strHash hok hname _
  cases h with
  | threw _ hcall => exact hfiles.called (.threw hcall)
  | refused _ hcall => exact hfiles.called (.returned hcall)
  | deleted _ hcall => exact hfiles.called (.returned hcall)

theorem WriteEnds.files {content : Str}
    (h : WriteEnds (Service.paxos sq strHash stillNamed) session xid fd content st (.ret () st'))
    (hok : st.db.Filing) (hname : NameOk fd.fileName) (hquoted : quoted content ≠ none)
    (hfile : ∀ r ∈ st.db.fs, r.name = fd.fileName →
      UInt64.ofInt r.instanceNumber = wire fd.instanceNumber → r.isDirectory = 0) :
    st'.db.Filing ∧ st.db.KeepsParents st'.db := by
  have hfiles : Files st.db
      ((Service.paxos sq strHash stillNamed).db.checkAndUpdate fd.fileName fd.instanceNumber content
        st.db) := by
    show Files st.db ((leaderDb sq strHash).checkAndUpdate _ _ _ _)
    rw [leaderDb_checkAndUpdate]
    exact files_checkAndUpdate sq strHash hok hname hquoted hfile
  cases h with
  | failed hcall => exact hfiles.called hcall
  | written hcall => exact hfiles.called (.returned hcall)

/-- A request of such a run keeps the tree. -/
theorem Handles.files {input : Input} (h : Handles (Service.paxos sq strHash stillNamed) st input
    (.ret () st'))
    (hok : SpaceOk st) (hcall : NameSpaceCall st input) (hfiled : Filed st input) :
    st'.db.Filing ∧ st.db.KeepsParents st'.db := by
  have hsent : ∀ fd ∈ (handlesSent st.log).map Prod.snd, NameOk fd.fileName := by
    intro fd hfd
    obtain ⟨⟨s, fd'⟩, hmem, rfl⟩ := List.mem_map.mp hfd
    exact name_of_handlesSent hok.accepted hmem
  cases h with
  | fileOpen ho => exact ho.files hok.filing
  | fileDelete ho => exact ho.files hok.filing (hsent _ hcall)
  | setContents ho => exact ho.files hok.filing (hsent _ hcall) hfiled.1 hfiled.2
  | startSession ho =>
    cases ho with
    | refused _ => exact ⟨hok.filing, .refl _⟩
    | started _ => exact ⟨hok.filing, .refl _⟩
  | _ => exact hcall.elim

/-- A request of such a run keeps the invariant. -/
theorem Handles.spaceOk {input : Input}
    (h : Handles (Service.paxos sq strHash stillNamed) st input (.ret () st')) (hok : SpaceOk st)
    (hcall : NameSpaceCall st input) (hfiled : Filed st input) : SpaceOk st' := by
  refine ⟨(h.files hok hcall hfiled).1, ?_⟩
  obtain ⟨l, hl, hlog⟩ := h.sendsAccepted
  rw [hlog]
  intro a ha
  rcases List.mem_append.mp ha with ha | ha
  · exact hok.accepted a ha
  · exact hl a ha

end Requests

/-! ## The runs that set contents of files only -/

/-- The name space of a state is a tree, and the next request of a run deletes
    no directory that has a child. -/
structure NameSpaceTree (sq : Engine) (strHash : Str → UInt64)
    (stillNamed : FdRecord → Bool)
    (ok : Leader Store → Input → Prop) (st : Leader Store) : Prop where
  rooted : st.db.Rooted
  kept : ∀ input st', ok st input →
    Leader.step (Service.paxos sq strHash stillNamed) input st = some st' →
      st.db.KeepsParents st'.db

/-- Along every run in which contents are set on files only and stay inside
    their token, the name space is a tree. -/
theorem nameSpaceTree_reachable (sq : Engine) (strHash : Str → UInt64)
    (stillNamed : FdRecord → Bool)
    (masterSequenceNumber : UInt64) (st : Leader Store)
    (h : ((Service.paxos sq strHash stillNamed).leader Store.empty masterSequenceNumber).Reach
      (fun st input => NameSpaceCall st input ∧ Filed st input) st) :
    NameSpaceTree sq strHash stillNamed (fun st input => NameSpaceCall st input ∧
      Filed st input) st := by
  have hok : SpaceOk st := by
    refine h.invariant ?_ ?_
    · rintro st rfl
      exact ⟨⟨rfl, ⟨0, rfl⟩, Shape.empty⟩, fun a ha => by cases ha⟩
    · intro st st' input _ hok hinput hstep
      exact (step_ends _ hstep).spaceOk hok hinput.1 hinput.2
  refine ⟨hok.filing.shape.parents, fun input st' hinput hstep => ?_⟩
  exact ((step_ends _ hstep).files hok hinput.1 hinput.2).2

/-- The directory `/d` gets a child, whose content is set, and cannot be deleted. -/
def nested : List Input :=
  [.rpc 1 1 (.startSession ['1']),
    .rpc 1 2 (.fileOpen ['/', 'd'] ModeFlag.createDirectory),
    .rpc 1 3 (.fileOpen ['/', 'd', '/', 'f'] ModeFlag.createFile),
    .rpc 1 4 (.setContents ⟨0, 0, ['/', 'd', '/', 'f'], 2, false⟩ ['x']),
    .rpc 1 5 (.fileDelete ⟨0, 0, ['/', 'd'], 1, false⟩)]

theorem nameSpaceTree_nested :
    ∃ st, ((Service.paxos .refusing (fun _ => 0) inlineNamed).leader Store.empty 0).exec
      (fun st input => NameSpaceCall st input ∧ Filed st input) nested
      (Leader.fresh Store.empty 0) = some st ∧
      st.db.fs.map FsRow.name = [['/', 'd'], ['/', 'd', '/', 'f']] ∧
      NameSpaceTree .refusing (fun _ => 0) inlineNamed
        (fun st input => NameSpaceCall st input ∧ Filed st input) st := by
  have hrun : ∃ st, ((Service.paxos .refusing (fun _ => 0) inlineNamed).leader Store.empty 0).exec
      (fun st input => NameSpaceCall st input ∧ Filed st input) nested
      (Leader.fresh Store.empty 0) = some st ∧
      st.db.fs.map FsRow.name = [['/', 'd'], ['/', 'd', '/', 'f']] := by
    refine ⟨_, rfl, ?_⟩
    decide
  obtain ⟨st, hst, hnames⟩ := hrun
  exact ⟨st, hst, hnames, nameSpaceTree_reachable .refusing (fun _ => 0) inlineNamed 0 st
    (Lts.Reach.exec (.init rfl) hst)⟩

/-- A directory whose content is overwritten is deleted while it has a child. -/
theorem not_nameSpaceTree :
    ¬ ∀ st, ((Service.paxos .refusing (fun _ => 0) inlineNamed).leader Store.empty 0).Reach
      NameSpaceCall st →
      NameSpaceTree .refusing (fun _ => 0) inlineNamed NameSpaceCall st := by
  intro hall
  have hrun : ∃ st,
      ((Service.paxos .refusing (fun _ => 0) inlineNamed).leader Store.empty 0).exec NameSpaceCall
      [.rpc 1 1 (.startSession ['1']),
        .rpc 1 2 (.fileOpen ['/', 'd'] ModeFlag.createDirectory),
        .rpc 1 3 (.fileOpen ['/', 'd', '/', 'f'] ModeFlag.createFile),
        .rpc 1 4 (.setContents ⟨0, 0, ['/', 'd'], 1, false⟩ []),
        .rpc 1 5 (.fileDelete ⟨0, 0, ['/', 'd'], 1, false⟩)]
      (Leader.fresh Store.empty 0) = some st ∧ ¬ st.db.Rooted := by
    refine ⟨_, rfl, ?_⟩
    decide
  obtain ⟨st, hst, hnot⟩ := hrun
  exact hnot (hall st (Lts.Reach.exec (.init rfl) hst)).rooted

end SimpleChubby
